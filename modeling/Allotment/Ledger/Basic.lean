import Allotment.Reservation.Admission

/-!
# Ledgers

The ledger of a queue holds the reservations that have been admitted, and beside them the demand
that they make together: in total and by user. Adding, replacing and removing a reservation changes
these books by the profile of that reservation alone. Nothing is changed by an operation that is
refused.

The order in which faults are looked for is part of the interface. A proposal is judged by itself
first (queue, then defects), then against the reservations of the ledger (is the identifier taken,
or known, and whose is it), and by the admission rule last.
-/

namespace Allotment

open Demand (Interval Step Profile)

/-- What a queue has to give and how it decides. -/
structure Terms where
  queue : String
  step : Step
  capacity : Resource
  rule : AdmissionRule

/-- The admitted reservations of one queue and the demand that they make. -/
structure Ledger where
  terms : Terms
  reservations : Std.ExtTreeMap ReservationId Reservation ReservationId.compare
  /-- The demand of all reservations. -/
  total : Profile
  /-- The demand by user; users without demand are left out. -/
  byUser : Std.ExtTreeMap String Profile

namespace Ledger

/-- Why an operation on a ledger was refused. -/
inductive Refusal where
  /-- Buckets of this length cannot be. -/
  | stepNotPositive (ms : Int)
  /-- The reservation asks for another queue than the ledger serves. -/
  | otherQueue (r : Reservation) (served : String)
  | defect (r : Reservation) (d : Reservation.Defect)
  | duplicate (id : ReservationId)
  | unknown (id : ReservationId)
  | notOwner (id : ReservationId) (owner requester : String)
  | overCommitted (id : ReservationId) (v : Violation)

/-- What is told about a reservation that its owner alone may change. -/
def ownerText (reservation owner requester : String) : String :=
  "reservation " ++ reservation ++ " belongs to " ++ owner ++ ", not " ++ requester

def Refusal.report : Refusal → Report
  | stepNotPositive ms => ⟨.configuration, "plan step must be positive, got " ++ toString ms⟩
  | otherQueue r served =>
    ⟨.invalidReservation,
      r.id.text ++ " targets queue " ++ r.queue ++ ", plan serves " ++ served⟩
  | defect r d => ⟨.invalidReservation, r.defectText d⟩
  | duplicate id => ⟨.duplicateReservation, id.text⟩
  | unknown id => ⟨.unknownReservation, id.text⟩
  | notOwner id owner requester => ⟨.ownershipMismatch, ownerText id.text owner requester⟩
  | overCommitted id v => ⟨.capacityViolation, v.text id.text⟩

def empty (terms : Terms) : Ledger where
  terms := terms
  reservations := ∅
  total := ∅
  byUser := ∅

/-- A new ledger with buckets of `ms` milliseconds. -/
def open? (queue : String) (ms : Int) (capacity : Resource) (rule : AdmissionRule) :
    Except Refusal Ledger :=
  if 0 < ms then .ok (empty ⟨queue, .ofInt ms, capacity, rule⟩)
  else .error (.stepNotPositive ms)

def get? (l : Ledger) (id : ReservationId) : Option Reservation :=
  l.reservations[id]?

def userDemand (l : Ledger) (user : String) : Profile :=
  l.byUser.getD user ∅

/-- Puts down the demand of a user; a user without demand is left out. -/
def setUserDemand (byUser : Std.ExtTreeMap String Profile) (user : String) (p : Profile) :
    Std.ExtTreeMap String Profile :=
  if p.isEmpty then byUser.erase user else byUser.insert user p

/-- Refuses a proposal for what is wrong with it, whatever the reservations of the ledger. -/
def checkProposal (l : Ledger) (r : Reservation) : Except Refusal Unit :=
  if r.queue ≠ l.terms.queue then
    .error (.otherQueue r l.terms.queue)
  else
    match r.defect? with
    | some d => .error (.defect r d)
    | none => .ok ()

/-- The reservation with the given identifier, which must belong to `user`. -/
def owned (l : Ledger) (id : ReservationId) (user : String) : Except Refusal Reservation :=
  match l.get? id with
  | none => .error (.unknown id)
  | some r => if r.user = user then .ok r else .error (.notOwner id r.user user)

/-- Enters a reservation with the demands that result from it, if the admission rule allows them. -/
def enter (l : Ledger) (r : Reservation) (total user : Profile) : Except Refusal Ledger :=
  match l.terms.rule.violation? l.terms.step r.window l.terms.capacity total user with
  | some v => .error (.overCommitted r.id v)
  | none => .ok
      { l with
        reservations := l.reservations.insert r.id r
        total := total
        byUser := setUserDemand l.byUser r.user user }

/-- Takes a reservation and its demand out of the ledger. -/
def strike (l : Ledger) (r : Reservation) : Ledger :=
  let p := r.profile l.terms.step
  { l with
    reservations := l.reservations.erase r.id
    total := l.total - p
    byUser := setUserDemand l.byUser r.user (l.userDemand r.user - p) }

def add (l : Ledger) (r : Reservation) : Except Refusal Ledger := do
  l.checkProposal r
  if l.reservations.contains r.id then
    throw (.duplicate r.id)
  let p := r.profile l.terms.step
  l.enter r (l.total + p) (l.userDemand r.user + p)

/-- Puts a new version in the place of a reservation of the same user. The old version is left out
of account, and it stays in force if the new one is refused. -/
def replace (l : Ledger) (r : Reservation) : Except Refusal Ledger := do
  l.checkProposal r
  let old ← l.owned r.id r.user
  let p := old.profile l.terms.step
  let q := r.profile l.terms.step
  l.enter r (l.total - p + q) (l.userDemand r.user - p + q)

def remove (l : Ledger) (id : ReservationId) (user : String) :
    Except Refusal (Reservation × Ledger) := do
  let r ← l.owned id user
  return (r, l.strike r)

/-- Removes the reservations that are past their windows. -/
def archive (l : Ledger) (now : Int) : List ReservationId × Ledger :=
  let past := (l.reservations.toList.map (·.2)).filter fun r => r.phase now = .completed
  (past.map (·.id), past.foldl strike l)

/-! ### Questions -/

def size (l : Ledger) : Nat :=
  l.reservations.size

def demandAt (l : Ledger) (t : Int) : Resource :=
  l.total.demandAt l.terms.step t

def userDemandAt (l : Ledger) (user : String) (t : Int) : Resource :=
  (l.userDemand user).demandAt l.terms.step t

/-- Earlier start first, then the smaller identifier. -/
def startsBefore (a b : Reservation) : Bool :=
  (compareLex (compareOn (·.window.start)) (fun a b => ReservationId.compare a.id b.id) a b).isLE

/-- The reservations that are active at an instant, by start. -/
def activeAt (l : Ledger) (t : Int) : List Reservation :=
  ((l.reservations.toList.map (·.2)).filter fun r => r.IsActive t).mergeSort startsBefore

def phase? (l : Ledger) (id : ReservationId) (now : Int) : Option Reservation.Phase :=
  (l.get? id).map (·.phase now)

/-! ### What each operation leaves -/

variable {l m : Ledger} {r : Reservation} {id : ReservationId} {p q : Profile} {user : String}

theorem getD_setUserDemand {byUser : Std.ExtTreeMap String Profile} {u : String} :
    (setUserDemand byUser user p).getD u ∅ = if user = u then p else byUser.getD u ∅ := by
  simp only [setUserDemand]
  split
  · next h =>
    rw [Profile.isEmpty_iff.1 h]
    simp [Std.ExtTreeMap.getD_erase]
  · simp [Std.ExtTreeMap.getD_insert]

theorem get?_empty {terms : Terms} : (empty terms).get? id = none := by
  simp [get?, empty]

theorem get?_strike : (l.strike r).get? id = if r.id = id then none else l.get? id := by
  simp [get?, strike, Std.ExtTreeMap.getElem?_erase]

theorem get?_of_enter (h : l.enter r p q = .ok m) :
    m.get? id = if r.id = id then some r else l.get? id := by
  simp only [enter] at h
  split at h
  · simp at h
  · obtain rfl := Except.ok.inj h
    simp [get?, Std.ExtTreeMap.getElem?_insert]

theorem userDemand_strike : (l.strike r).userDemand user =
    if r.user = user then l.userDemand user - r.profile l.terms.step else l.userDemand user := by
  simp only [userDemand, strike, getD_setUserDemand]
  split <;> simp_all

theorem userDemand_of_enter (h : l.enter r p q = .ok m) :
    m.userDemand user = if r.user = user then q else l.userDemand user := by
  simp only [enter] at h
  split at h
  · simp at h
  · obtain rfl := Except.ok.inj h
    simp only [userDemand, getD_setUserDemand]

end Ledger

end Allotment
