import Allotment.Binary64.Decimal
import Allotment.Document.Record

/-!
# Settings

The settings have three parts: for the watch over the devices, for the ledger of reservations and
for the log. Each part and each field has a default and may be left out. `Settings.defect?` finds
values with which nothing can be run.
-/

namespace Allotment

open Document (Value)
open Text.Numeral (greatest64)

structure Settings.Monitor where
  command : String := "nvidia-smi"
  args : List String := []
  intervalMs : Nat := 300
  queryTimeoutMs : Nat := 2000
  procRoot : String := "/proc"
  maxAncestorDepth : Nat := 64
  /-- How many finished applications are kept. -/
  historyCapacity : Nat := 1024

structure Settings.Plan where
  queueName : String := "dedicated"
  stepMs : Int := 1000
  capacity : Resource := 0
  rule : AdmissionRule := .noOverCommit

structure Settings.Logging where
  level : String := "info"

structure Settings where
  monitor : Settings.Monitor := {}
  plan : Settings.Plan := {}
  logging : Settings.Logging := {}

namespace Settings

def Monitor.ofValue? (v : Value) : Option Monitor := do
  let d : Monitor := {}
  let f ← v.fields? .ignored ["command", "args", "interval_ms", "query_timeout_ms", "proc_root",
    "max_ancestor_depth", "history_capacity"]
  return {
    command := ← f.optional "command" (·.text?) d.command
    args := ← f.optional "args" (·.texts?) d.args
    intervalMs := ← f.optional "interval_ms" (·.nat? greatest64) d.intervalMs
    queryTimeoutMs := ← f.optional "query_timeout_ms" (·.nat? greatest64) d.queryTimeoutMs
    procRoot := ← f.optional "proc_root" (·.text?) d.procRoot
    maxAncestorDepth := ← f.optional "max_ancestor_depth" (·.nat? greatest64) d.maxAncestorDepth
    historyCapacity := ← f.optional "history_capacity" (·.nat? greatest64) d.historyCapacity }

def Plan.ofValue? (v : Value) : Option Plan := do
  let d : Plan := {}
  let f ← v.fields? .ignored ["queue_name", "step_ms", "capacity", "policy"]
  return {
    queueName := ← f.optional "queue_name" (·.text?) d.queueName
    stepMs := ← f.optional "step_ms" (·.int? .word64) d.stepMs
    capacity := ← f.optional "capacity" (Resource.ofValue? .ignored) d.capacity
    rule := ← f.optional "policy" AdmissionRule.ofValue? d.rule }

def Logging.ofValue? (v : Value) : Option Logging := do
  let d : Logging := {}
  let f ← v.fields? .ignored ["level"]
  return { level := ← f.optional "level" (·.text?) d.level }

def ofValue? (v : Value) : Option Settings := do
  let f ← v.fields? .ignored ["monitor", "plan", "logging"]
  return {
    monitor := ← f.optional "monitor" Monitor.ofValue? {}
    plan := ← f.optional "plan" Plan.ofValue? {}
    logging := ← f.optional "logging" Logging.ofValue? {} }

/-- What nothing can be run with. -/
inductive Defect where
  | intervalNotPositive
  | stepNotPositive
  | shareOutOfRange (x : Float)

def Defect.text : Defect → String
  | intervalNotPositive => "monitor.interval_ms must be positive"
  | stepNotPositive => "plan.step_ms must be positive"
  | shareOutOfRange x =>
    "plan.policy.max_share must be within [0, 1], got " ++ Binary64.text x

def share? : AdmissionRule → Option Float
  | .noOverCommit => none
  | .userShareCap x => some x

/-- The first defect of the settings: the interval of queries comes before the length of a bucket
and this before the share of a user. -/
def defect? (s : Settings) : Option Defect :=
  if s.monitor.intervalMs = 0 then some .intervalNotPositive
  else if s.plan.stepMs ≤ 0 then some .stepNotPositive
  else (share? s.plan.rule).bind fun x =>
    if 0 ≤ x ∧ x ≤ 1 then none else some (.shareOutOfRange x)

end Settings

end Allotment
