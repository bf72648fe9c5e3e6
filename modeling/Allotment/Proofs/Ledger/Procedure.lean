import Allotment.Ledger.Procedure
import Allotment.Proofs.Ledger.Run

/-!
# Procedures carry operations out

A procedure reads and writes a ledger in place, and what it has written by the time it is refused
stays written. Each operation tells how its procedure ends all the same: with the ledger of the
operation, or refused, and then on the ledger from before.
-/

namespace Allotment.Ledger

open Demand (Profile)
open EStateM (Result)

variable {l : Ledger} {r : Reservation} {rs : List Reservation} {id : ReservationId}
  {p q : Profile} {user : String}

namespace Procedure

section Parts

variable {α β : Type} {judge : Ledger → Except Refusal α} {f : α → Procedure β}

/-- How a procedure ends that carries out an operation with the given result. -/
def outcome (l : Ledger) : Except Refusal (α × Ledger) → Result Refusal Ledger α
  | .ok (a, m) => .ok a m
  | .error e => .error e l

theorem run_require_bind_of_ok {a : α} (h : judge l = .ok a) :
    (require judge >>= f).run l = (f a).run l := by
  unfold require
  simp only [EStateM.run_bind, EStateM.run_get, h]
  rfl

theorem run_require_bind_of_error {e : Refusal} (h : judge l = .error e) :
    (require judge >>= f).run l = .error e l := by
  unfold require
  simp only [EStateM.run_bind, EStateM.run_get, h]
  rfl

end Parts

/-! ## Writing -/

theorem run_enter : (enter r p q).run l = outcome l ((l.enter r p q).map fun m => ((), m)) := by
  unfold enter applyRule Ledger.enter
  simp only [EStateM.run_bind, EStateM.run_get]
  cases l.terms.rule.violation? l.terms.step r.window l.terms.capacity p q <;> rfl

theorem run_take (hr : l.get? id = some r) (hid : r.id = id) :
    (take id).run l = .ok (some r) (l.strike r) := by
  unfold take
  simp only [EStateM.run_bind, EStateM.run_get, hr]
  subst hid
  rfl

theorem run_takeAll (hrs : rs.Pairwise fun x y => x.id ≠ y.id)
    (hget : ∀ r ∈ rs, l.get? r.id = some r) :
    (takeAll (rs.map (·.id))).run l = .ok () (rs.foldl strike l) := by
  induction rs generalizing l with
  | nil => rfl
  | cons r rs ih =>
      obtain ⟨hhead, hrest⟩ := List.pairwise_cons.1 hrs
      have htake : (take r.id).run l = .ok (some r) (l.strike r) :=
        run_take (hget r List.mem_cons_self) rfl
      have hleft : ∀ x ∈ rs, (l.strike r).get? x.id = some x := by
        intro x hx
        rw [get?_strike, if_neg (hhead x hx)]
        exact hget x (List.mem_cons_of_mem r hx)
      rw [List.map_cons, takeAll, EStateM.run_bind, htake]
      exact ih hrest hleft

/-! ## The operations -/

theorem run_add : (add r).run l = outcome l ((l.add r).map fun m => ((), m)) := by
  unfold add Ledger.add
  cases hcheck : l.checkProposal r with
  | error e => exact run_require_bind_of_error hcheck
  | ok u =>
      rw [run_require_bind_of_ok hcheck, EStateM.run_bind, EStateM.run_get]
      by_cases htaken : l.reservations.contains r.id
      · simp only [htaken, if_true]
        rfl
      · simp only [htaken]
        exact run_enter

theorem run_replace : (replace r).run l = outcome l ((l.replace r).map fun m => ((), m)) := by
  unfold replace Ledger.replace
  cases hcheck : l.checkProposal r with
  | error e => exact run_require_bind_of_error hcheck
  | ok u =>
      rw [run_require_bind_of_ok hcheck]
      cases howned : l.owned r.id r.user with
      | error e => exact run_require_bind_of_error howned
      | ok old =>
          rw [run_require_bind_of_ok howned, EStateM.run_bind, EStateM.run_get]
          exact run_enter

/-- What has been looked up is there to be taken. -/
theorem run_remove (h : l.Keyed) : (remove id user).run l = outcome l (l.remove id user) := by
  unfold remove Ledger.remove
  cases howned : l.owned id user with
  | error e => exact run_require_bind_of_error howned
  | ok r =>
      have hr : l.get? id = some r := (owned_eq_ok_iff.1 howned).1
      rw [run_require_bind_of_ok howned, EStateM.run_bind, run_take hr (h id r hr)]
      rfl

theorem run_archive (h : l.Keyed) {now : Int} :
    (archive now).run l = .ok (l.archive now).1 (l.archive now).2 := by
  have hall : (takeAll ((l.past now).map (·.id))).run l = .ok () ((l.past now).foldl strike l) :=
    run_takeAll (h.pairwise_past now) fun r hr => (h.mem_past_iff.1 hr).1
  change (takeAll ((l.past now).map (·.id)) >>= fun _ => pure ((l.past now).map (·.id))).run l = _
  rw [EStateM.run_bind, hall]
  rfl

/-- The procedure of an operation. -/
def serve : Operation → Procedure Answer
  | .add r => do
    add r
    return .entered
  | .replace r => do
    replace r
    return .entered
  | .remove id user => return .removed (← remove id user)
  | .archive now => return .archived (← archive now)

/-- What is carried out in place comes to what the operation says. -/
theorem run_serve (h : l.Keyed) (op : Operation) : (serve op).run l = outcome l (l.perform op) := by
  cases op with
  | add r =>
      simp only [serve, EStateM.run_bind, run_add, perform]
      cases l.add r <;> rfl
  | replace r =>
      simp only [serve, EStateM.run_bind, run_replace, perform]
      cases l.replace r <;> rfl
  | remove id user =>
      simp only [serve, EStateM.run_bind, run_remove h, perform]
      cases l.remove id user <;> rfl
  | archive now =>
      simp only [serve, EStateM.run_bind, run_archive h]
      rfl

end Procedure

end Allotment.Ledger
