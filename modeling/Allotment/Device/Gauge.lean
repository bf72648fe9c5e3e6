import Allotment.Word

/-!
# GPU devices

A `Gauge` is what a survey reads off a device, a `DeviceStatus` is what the choice of a device needs
of it, and an `AppUsage` is the part in the use of a device that is put down to an application.
Memory is in MiB and utilization in percent.
-/

namespace Allotment

/-- The state of one device. -/
structure Gauge where
  total : Int
  used : Int
  free : Int
  utilization : Nat
deriving DecidableEq, Repr

/-- The gauge of a device with the given memory in use. What is not used is free, and utilization
is at most a hundred. -/
def Gauge.ofUsed (total used : Int) (utilization : Nat) : Gauge where
  total := total
  used := used
  free := Word.word64.wrap (total - used)
  utilization := min utilization 100

/-- What is known of a device when one has to be chosen. -/
structure DeviceStatus where
  device : Nat
  utilization : Nat
  free : Int
deriving DecidableEq, Repr

def Gauge.status (g : Gauge) (device : Nat) : DeviceStatus :=
  ⟨device, g.utilization, g.free⟩

/-- The part of an application in the utilization of a device. -/
structure AppUsage where
  device : Nat
  application : String
  /-- Percentage points. -/
  utilization : Nat
  /-- How many containers of the application are still watched. -/
  containers : Nat
deriving DecidableEq, Repr

def AppUsage.isActive (u : AppUsage) : Bool :=
  0 < u.containers

namespace DeviceStatus

def text (s : DeviceStatus) : String :=
  "GPU " ++ toString s.device ++ " (" ++ toString s.utilization ++ "% busy, " ++
    toString s.free ++ " MiB free)"

/-- Less utilized, or as much and with the smaller number. -/
def Precedes (a b : DeviceStatus) : Prop :=
  a.utilization < b.utilization ∨ a.utilization = b.utilization ∧ a.device < b.device

instance (a b : DeviceStatus) : Decidable (a.Precedes b) :=
  inferInstanceAs (Decidable (_ ∨ _))

/-- The status that no other one of the list precedes, the first of several. -/
def leastUtilized? : List DeviceStatus → Option DeviceStatus
  | [] => none
  | s :: l =>
    match leastUtilized? l with
    | none => some s
    | some best => if best.Precedes s then some best else some s

/-- The device for a container that needs `required` MiB: the least utilized one with that much
free, or else the least utilized one of all. -/
def choose? (l : List DeviceStatus) (required : Int) : Option DeviceStatus :=
  (leastUtilized? (l.filter fun s => required ≤ s.free)).or (leastUtilized? l)

/-- The least utilization, a hundred without devices. -/
def leastUtilization (l : List DeviceStatus) : Nat :=
  (l.map (·.utilization)).min?.getD 100

theorem leastUtilized?_eq_none_iff {l : List DeviceStatus} : leastUtilized? l = none ↔ l = [] := by
  cases l with
  | nil => simp [leastUtilized?]
  | cons s l =>
    simp only [leastUtilized?, reduceCtorEq, iff_false]
    split
    · simp
    · split <;> simp

theorem leastUtilized?_mem {l : List DeviceStatus} {s : DeviceStatus}
    (h : leastUtilized? l = some s) : s ∈ l := by
  induction l with
  | nil => simp [leastUtilized?] at h
  | cons a l ih =>
    simp only [leastUtilized?] at h
    split at h
    · simp_all
    · split at h <;> simp_all

end DeviceStatus

end Allotment
