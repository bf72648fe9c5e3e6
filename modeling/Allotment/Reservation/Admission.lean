import Allotment.Resource.Scaling
import Allotment.Reservation.Basic

/-!
# Admission rules

An admission rule decides whether a queue may take a reservation on. It looks at the demand that
the queue would then have, in total and for the proposing user, in the buckets that meet the window
of the reservation, and it names the earliest bucket in which a limit would be passed.
-/

namespace Allotment

open Demand (Interval Step Profile)

/-- A demand that a limit does not allow. -/
structure Violation where
  instant : Int
  demand : Resource
  limit : Resource
deriving DecidableEq

/-- What is told about a violation by the reservation of the given name. -/
def Violation.text (v : Violation) (reservation : String) : String :=
  "reservation " ++ reservation ++ " needs " ++ v.demand.text ++ " at t=" ++ toString v.instant ++
    ", allowed " ++ v.limit.text

/-- Which reservations a queue takes on. -/
inductive AdmissionRule where
  /-- The total demand stays within the capacity. -/
  | noOverCommit
  /-- In addition no user passes a part of the capacity. -/
  | userShareCap (maxShare : Float)

namespace AdmissionRule

def name : AdmissionRule → String
  | noOverCommit => "no-over-commit"
  | userShareCap _ => "user-share-cap"

/-- The nearest number from zero to one. What is no number stays as it is. -/
def clampShare (x : Float) : Float :=
  if x < 0.0 then 0.0 else if 1.0 < x then 1.0 else x

/-- The part of the capacity that a user may take, rounded down. -/
def userLimit (maxShare : Float) (capacity : Resource) : Resource :=
  capacity.scale .down (clampShare maxShare)

/-- The earliest bucket that meets the window and whose demand does not fit in the limit. -/
def overrun? (s : Step) (window : Interval) (demand : Profile) (limit : Resource) :
    Option Violation :=
  ((demand.within s window).find? fun x => ¬x.2 ≤ limit).map fun (b, r) => ⟨b, r, limit⟩

/-- The violation for which the rule refuses a reservation with the given window, if `total` and
`user` are the demands that would result. The total is looked at first. -/
def violation? (rule : AdmissionRule) (s : Step) (window : Interval) (capacity : Resource)
    (total user : Profile) : Option Violation :=
  match rule with
  | noOverCommit => overrun? s window total capacity
  | userShareCap maxShare =>
    (overrun? s window total capacity).or (overrun? s window user (userLimit maxShare capacity))

end AdmissionRule

end Allotment
