import Allotment.Demand.Profile
import Allotment.Report
import Allotment.Reservation.Id

/-!
# Reservations

A reservation asks for resources during intervals that lie inside its window. Intervals may
overlap, and their demands then add up. `Reservation.defect?` finds the first thing that is wrong
with a reservation; a reservation without defect is `Valid`.
-/

namespace Allotment

open Demand (Interval Step Profile)

/-- The demand made during each of a set of intervals, ordered by the intervals. -/
abbrev Demands :=
  Std.ExtTreeMap Interval Resource Interval.compare

/-- The demands in the order in which they are entered; a later one for the same interval replaces
the earlier. -/
def Demands.ofList (l : List (Interval × Resource)) : Demands :=
  Std.ExtTreeMap.ofList l Interval.compare

/-- Demands made one after another, each for the time `length`, from `start` on. -/
def Demands.ofSteps (start length : Int) (l : List Resource) : Demands :=
  Demands.ofList <| l.zipIdx.map fun (r, k) =>
    let first := Word.word64.wrap (start + Word.word64.wrap (k * length))
    (⟨first, Word.word64.wrap (first + length)⟩, r)

/-- A request of a user for resources of a queue. -/
structure Reservation where
  id : ReservationId
  user : String
  queue : String
  /-- The time outside of which nothing may be asked for. -/
  window : Interval
  demands : Demands

namespace Reservation

/-- Where a reservation stands at some instant. -/
inductive Phase where
  /-- Not started yet. -/
  | admitted
  | active
  /-- Past its window. -/
  | completed
deriving DecidableEq, Repr

def Phase.name : Phase → String
  | admitted => "admitted"
  | active => "active"
  | completed => "completed"

/-- What can be wrong with a reservation by itself. -/
inductive Defect where
  | noUser
  | emptyWindow
  | emptyInterval (i : Interval)
  | outsideWindow (i : Interval)
  | negativeDemand (r : Resource)
deriving DecidableEq

/-- What is wrong with one demand of a reservation. -/
def demandDefect? (r : Reservation) (i : Interval) (demand : Resource) : Option Defect :=
  if i.IsEmpty then some (.emptyInterval i)
  else if ¬i ≤ r.window then some (.outsideWindow i)
  else if ¬0 ≤ demand then some (.negativeDemand demand)
  else none

/-- The first defect, in the order user, window, demands by interval. -/
def defect? (r : Reservation) : Option Defect :=
  if r.user.isEmpty then some .noUser
  else if r.window.IsEmpty then some .emptyWindow
  else r.demands.toList.findSome? fun (i, demand) => r.demandDefect? i demand

/-- A reservation that has no defect. -/
def Valid (r : Reservation) : Prop :=
  r.defect? = none

instance (r : Reservation) : Decidable r.Valid :=
  inferInstanceAs (Decidable (_ = none))

def profile (r : Reservation) (s : Step) : Profile :=
  .ofIntervals s r.demands.toList

def demandAt (r : Reservation) (t : Int) : Resource :=
  .sum ((r.demands.toList.filter fun x => t ∈ x.1).map (·.2))

def IsActive (r : Reservation) (t : Int) : Prop :=
  t ∈ r.window

instance (r : Reservation) (t : Int) : Decidable (r.IsActive t) :=
  inferInstanceAs (Decidable (_ ∈ _))

def phase (r : Reservation) (t : Int) : Phase :=
  if t < r.window.start then .admitted
  else if t < r.window.stop then .active
  else .completed

/-- What is told about a defect of the reservation. -/
def defectText (r : Reservation) : Defect → String
  | .noUser => r.id.text ++ " has no user"
  | .emptyWindow =>
    r.id.text ++ " starts at " ++ toString r.window.start ++ " but ends at " ++
      toString r.window.stop
  | .emptyInterval i => r.id.text ++ " has an empty interval " ++ i.text
  | .outsideWindow i =>
    r.id.text ++ " interval " ++ i.text ++ " lies outside " ++ r.window.text
  | .negativeDemand demand => r.id.text ++ " requests negative resources " ++ demand.text

theorem phase_eq_active_iff {r : Reservation} {t : Int} :
    r.phase t = .active ↔ r.IsActive t := by
  simp only [phase, IsActive, Interval.mem_iff]
  split
  · simp; omega
  · split
    · simp; omega
    · simp; omega

end Reservation

end Allotment
