import Allotment.Device.Gauge
import Allotment.Document.Fields
import Allotment.Reservation.Admission
import Allotment.Text.Numeral

/-!
# Records

The records that are kept in documents, each with the names of its fields. A record is read as a
whole or not at all.
-/

namespace Allotment

open Document (Surplus Value)
open Text.Numeral (greatest32 greatest64)

/-- The fields of an amount of resources; GPU memory may be left out. -/
def Resource.ofValue? (surplus : Surplus) (v : Value) : Option Resource := do
  let f ← v.fields? surplus ["memory", "vcores", "gpu_memory"]
  Resource.ofAmounts? (← f.required "memory" (·.int? .word64))
    (← f.required "vcores" (·.int? .word32)) (← f.optional "gpu_memory" (·.int? .word64) 0)

def Dimension.ofValue? (v : Value) : Option Dimension :=
  v.choice?.bind Dimension.ofKey?

/-- The state of a device. The amounts are taken as they stand. -/
def Gauge.ofValue? (v : Value) : Option Gauge := do
  let f ← v.fields? .refused ["total_memory", "used_memory", "free_memory", "utilization"]
  return {
    total := ← f.required "total_memory" (·.int? .word64)
    used := ← f.required "used_memory" (·.int? .word64)
    free := ← f.required "free_memory" (·.int? .word64)
    utilization := ← f.required "utilization" (·.nat? greatest32) }

/-- What is known of a device when one has to be chosen. -/
def DeviceStatus.ofValue? (v : Value) : Option DeviceStatus := do
  let f ← v.fields? .refused ["device_id", "utilization", "free_memory"]
  return {
    device := ← f.required "device_id" (·.nat? greatest32)
    utilization := ← f.required "utilization" (·.nat? greatest32)
    free := ← f.required "free_memory" (·.int? .word64) }

/-- The part of an application in the utilization of a device. -/
def AppUsage.ofValue? (v : Value) : Option AppUsage := do
  let f ← v.fields? .refused
    ["device_id", "application_id", "gpu_utilization", "active_containers"]
  return {
    device := ← f.required "device_id" (·.nat? greatest32)
    application := ← f.required "application_id" (·.text?)
    utilization := ← f.required "gpu_utilization" (·.nat? greatest32)
    containers := ← f.required "active_containers" (·.nat? greatest64) }

def Demand.Interval.ofValue? (v : Value) : Option Demand.Interval := do
  let f ← v.fields? .refused ["start", "end"]
  return {
    start := ← f.required "start" (·.int? .word64)
    stop := ← f.required "end" (·.int? .word64) }

def Reservation.Phase.ofValue? (v : Value) : Option Reservation.Phase :=
  v.choice?.bind fun s => [admitted, active, completed].find? fun p => p.name == s

namespace AdmissionRule

/-- The rule of the given kind with its own fields. A list of fields must not be too long; tables
may hold more than is asked for. -/
def ofKind? (kind : String) (rest : Value) : Option AdmissionRule :=
  if kind = name noOverCommit then do
    let _ ← rest.fields? .refused []
    return noOverCommit
  else if kind = name (userShareCap 0) then do
    let f ← rest.fields? .refused ["max_share"]
    return userShareCap (← f.required "max_share" (·.real?))
  else
    none

/-- A rule: its kind, and then the fields of that kind. -/
def ofValue? : Value → Option AdmissionRule
  | .list (kind :: rest) => do ofKind? (← kind.text?) (.list rest)
  | .table entries => do
    let kind ← Document.Fields.required entries "kind" (·.text?)
    ofKind? kind (.table entries)
  | _ => none

end AdmissionRule

end Allotment
