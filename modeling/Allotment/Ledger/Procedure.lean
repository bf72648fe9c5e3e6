import Allotment.Ledger.Basic

/-!
# Procedures on a ledger

The operations of a ledger as they are carried out, in place and one book after another. A procedure
can be refused halfway. Nothing is rolled back then: what has been written by that time stays
written, so each procedure looks at everything first and writes last.
-/

namespace Allotment.Ledger

open Demand (Profile)

/-- What is carried out on a ledger in place. A refusal leaves the ledger as it was last written. -/
abbrev Procedure := EStateM Refusal Ledger

namespace Procedure

/-! ### Looking -/

/-- Refuses what the ledger refuses as it stands. -/
def require {α : Type} (judge : Ledger → Except Refusal α) : Procedure α := do
  match judge (← get) with
  | .ok a => return a
  | .error e => throw e

/-- Refuses what the admission rule does not allow of the demands that would result. -/
def applyRule (r : Reservation) (total user : Profile) : Procedure Unit := do
  let terms := (← get).terms
  match terms.rule.violation? terms.step r.window terms.capacity total user with
  | some v => throw (.overCommitted r.id v)
  | none => return ()

/-! ### Writing -/

def writeTotal (p : Profile) : Procedure Unit :=
  modify fun l => { l with total := p }

def writeUser (user : String) (p : Profile) : Procedure Unit :=
  modify fun l => { l with byUser := setUserDemand l.byUser user p }

def writeReservation (r : Reservation) : Procedure Unit :=
  modify fun l => { l with reservations := l.reservations.insert r.id r }

def eraseReservation (id : ReservationId) : Procedure Unit :=
  modify fun l => { l with reservations := l.reservations.erase id }

/-- Writes a reservation into all three books if the rule allows it. -/
def enter (r : Reservation) (total user : Profile) : Procedure Unit := do
  applyRule r total user
  writeTotal total
  writeUser r.user user
  writeReservation r

/-- Takes what is found under the identifier out of all three books. -/
def take (id : ReservationId) : Procedure (Option Reservation) := do
  match (← get).get? id with
  | none => return none
  | some r =>
    eraseReservation id
    let p := r.profile (← get).terms.step
    writeTotal ((← get).total - p)
    writeUser r.user ((← get).userDemand r.user - p)
    return some r

/-- Takes out what is found under the identifiers, one after another. -/
def takeAll : List ReservationId → Procedure Unit
  | [] => return ()
  | id :: ids => do
    let _ ← take id
    takeAll ids

/-! ### The operations -/

/-- Takes a new reservation on. -/
def add (r : Reservation) : Procedure Unit := do
  require (·.checkProposal r)
  let l ← get
  if l.reservations.contains r.id then
    throw (.duplicate r.id)
  let p := r.profile l.terms.step
  enter r (l.total + p) (l.userDemand r.user + p)

/-- Puts a new version in the place of a reservation of the same user. -/
def replace (r : Reservation) : Procedure Unit := do
  require (·.checkProposal r)
  let old ← require (·.owned r.id r.user)
  let l ← get
  let p := old.profile l.terms.step
  let q := r.profile l.terms.step
  enter r (l.total - p + q) (l.userDemand r.user - p + q)

/-- Removes a reservation on behalf of its owner. -/
def remove (id : ReservationId) (user : String) : Procedure Reservation := do
  let _ ← require (·.owned id user)
  match ← take id with
  | some r => return r
  | none => throw (.unknown id)

/-- Removes the reservations that are past their windows. -/
def archive (now : Int) : Procedure (List ReservationId) := do
  let rs := (← get).reservations.toList.map (·.2)
  let past := (rs.filter fun r => r.phase now = .completed).map (·.id)
  takeAll past
  return past

end Procedure

end Allotment.Ledger
