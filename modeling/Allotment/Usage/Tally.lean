import Std.Data.ExtTreeMap
import Std.Data.ExtTreeSet
import Allotment.Device.Gauge

/-!
# Attribution of utilization

A `Tally` estimates how much each application adds to the utilization of a device. It keeps the
utilization that was seen when the first container of the application started and the greatest one
seen since. The spread between the two is put down to the application and divided among its
containers. An application whose last container has stopped is kept with its spread for a while:
only so many of these are kept, and the oldest is dropped first.
-/

namespace Allotment.Usage

/-- An application on a device. -/
structure App where
  device : Nat
  name : String
deriving DecidableEq

/-- By device, then by name. -/
def App.compare (a b : App) : Ordering :=
  compareLex (compareOn App.device) (compareOn App.name) a b

instance : Std.TransCmp App.compare :=
  inferInstanceAs (Std.TransCmp (compareLex _ _))

instance : Std.LawfulEqCmp App.compare where
  eq_of_compare {a b} h := by
    simp only [App.compare, compareLex_eq_eq, compareOn, Std.LawfulEqCmp.compare_eq_iff_eq] at h
    cases a
    cases b
    simpa using h

/-- An application with containers that are watched. -/
structure Active where
  containers : Std.ExtTreeSet String
  /-- The utilization when the first container started. -/
  least : Nat
  /-- The greatest utilization seen since. -/
  greatest : Nat

namespace Active

/-- The rise in utilization since the application started. -/
def spread (a : Active) : Nat :=
  a.greatest - a.least

/-- The part of the rise that each container has. No word bounds the count of the containers. -/
def share (a : Active) : Nat :=
  a.spread / max a.containers.size 1

/-- Fewer than `2 ^ 32` containers may be counted in 32 bits. -/
theorem share_eq_div_mod {a : Active} (h : a.containers.size < 4294967296) :
    a.share = a.spread / (max a.containers.size 1 % 4294967296) := by
  rw [share, Nat.mod_eq_of_lt (Nat.max_lt.2 ⟨h, by decide⟩)]

def see (a : Active) (utilization : Nat) : Active :=
  { a with greatest := max a.greatest utilization }

/-- An application that starts at the given utilization. -/
def start (utilization : Nat) : Active where
  containers := ∅
  least := utilization
  greatest := utilization

end Active

/-- An application whose containers have all stopped. -/
structure Finished where
  app : App
  spread : Nat
deriving DecidableEq

/-- The applications that are active or have been. -/
structure Tally where
  active : Std.ExtTreeMap App Active App.compare
  /-- The oldest first. -/
  finished : List Finished
  /-- How many finished applications are kept. -/
  capacity : Nat

namespace Tally

def empty (capacity : Nat) : Tally where
  active := ∅
  finished := []
  capacity := capacity

/-- Watches a container of an application, and tells how many containers it has then. The
utilization matters only if the application was not active; what was kept of an earlier run of it
is forgotten. -/
def start (t : Tally) (app : App) (container : String) (utilization : Nat) : Nat × Tally :=
  let a := t.active.getD app (.start utilization)
  let containers := a.containers.insert container
  (containers.size,
    { t with
      active := t.active.insert app { a with containers := containers }
      finished := t.finished.filter fun f => f.app ≠ app })

/-- Ends an application, and drops the oldest finished ones if there are too many. -/
def finish (t : Tally) (app : App) (a : Active) : Tally :=
  let finished := t.finished ++ [⟨app, a.spread⟩]
  { t with
    active := t.active.erase app
    finished := finished.drop (finished.length - t.capacity) }

/-- Stops watching a container; `none` if it was not watched. -/
def stop? (t : Tally) (app : App) (container : String) : Option Tally := do
  let a ← t.active[app]?
  if a.containers.contains container then
    let a := { a with containers := a.containers.erase container }
    if a.containers.isEmpty then some (t.finish app a)
    else some { t with active := t.active.insert app a }
  else
    none

/-- Takes note of a utilization for all active applications. -/
def see (t : Tally) (utilization : Nat) : Tally :=
  { t with active := t.active.map fun _ a => a.see utilization }

def seeOn (t : Tally) (device utilization : Nat) : Tally :=
  { t with active := t.active.map fun app a =>
      if app.device = device then a.see utilization else a }

/-! ### Questions -/

def isActive (t : Tally) (app : App) : Bool :=
  t.active.contains app

/-- The part of the application in the utilization of its device: by container while it is active,
the whole spread while it is kept as finished. -/
def utilization (t : Tally) (app : App) : Nat :=
  match t.active[app]? with
  | some a => a.share
  | none => ((t.finished.reverse.find? fun f => f.app = app).map (·.spread)).getD 0

/-- All that is known: the active applications in order, then the finished ones, oldest first. -/
def history (t : Tally) : List AppUsage :=
  (t.active.toList.map fun (app, a) => ⟨app.device, app.name, a.share, a.containers.size⟩) ++
    t.finished.map fun f => ⟨f.app.device, f.app.name, f.spread, 0⟩

/-! ### Which applications are active after each operation -/

variable {t : Tally} {app other : App} {a : Active} {container : String}
  {utilization device : Nat}

theorem isActive_start : (t.start app container utilization).2.isActive other = true ↔
    app = other ∨ t.isActive other = true := by
  simp [isActive, start, Std.ExtTreeMap.contains_insert]

theorem isActive_finish :
    (t.finish app a).isActive other = true ↔ app ≠ other ∧ t.isActive other = true := by
  simp [isActive, finish, Std.ExtTreeMap.contains_erase]

@[simp] theorem isActive_see : (t.see utilization).isActive app = t.isActive app := by
  simp [isActive, see, Std.ExtTreeMap.contains_map]

@[simp] theorem isActive_seeOn : (t.seeOn device utilization).isActive app = t.isActive app := by
  simp [isActive, seeOn, Std.ExtTreeMap.contains_map]

end Tally

end Allotment.Usage
