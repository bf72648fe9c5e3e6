/-!
# Reports of failure

When an operation fails, what went wrong is a value of the error type of its own area. A `Report`
is what is told about it: the kind of failure, which fixes the heading, and the detail.
-/

namespace Allotment

inductive Report.Kind where
  | configuration
  | capacityViolation
  | ownershipMismatch
  | unknownReservation
  | duplicateReservation
  | invalidReservation
  | sampling
  | exhausted
  | io
deriving DecidableEq, Repr

/-- The heading under which failures of this kind are told. -/
def Report.Kind.heading : Report.Kind → String
  | configuration => "Configuration error"
  | capacityViolation => "Capacity violation"
  | ownershipMismatch => "Ownership mismatch"
  | unknownReservation => "Reservation not found"
  | duplicateReservation => "Reservation already exists"
  | invalidReservation => "Invalid reservation"
  | sampling => "Sampling error"
  | exhausted => "Resource exhausted"
  | io => "IO error"

/-- What is told about a failure. -/
structure Report where
  kind : Report.Kind
  detail : String
deriving DecidableEq, Repr

def Report.message (r : Report) : String :=
  r.kind.heading ++ ": " ++ r.detail

/-- Whether a demand beyond a limit is what failed. -/
def Report.isCapacityViolation (r : Report) : Bool :=
  r.kind == .capacityViolation

end Allotment
