import Allotment.Proofs.Ledger.Procedure
import Allotment.Proofs.Reservation.Load

/-!
# Refusals

A refused operation leaves no trace: had it never been asked for, every answer after it and the
ledger at the end would be the same. Which refusal it is follows from an order of causes that is
fixed for each operation, of which the first that holds decides.
-/

namespace Allotment.Ledger

open Demand (Profile)

variable {l : Ledger} {r : Reservation} {id : ReservationId} {p q : Profile} {user : String}
  {op : Operation}

/-! ## Causes of refusal -/

/-- The proposal is for another queue, or something is wrong with it by itself. -/
def Malformed (l : Ledger) (r : Reservation) : Prop :=
  r.queue ≠ l.terms.queue ∨ r.user = "" ∨ r.window.IsEmpty ∨
    ∃ x ∈ r.demands.toList, x.1.IsEmpty ∨ ¬x.1 ≤ r.window ∨ ¬0 ≤ x.2

/-- In a bucket that meets the window, the total demand that would result passes the capacity, or
that of the user the part of it that the rule leaves to one user. -/
def Oversized (l : Ledger) (r : Reservation) (total user : Profile) : Prop :=
  (∃ x ∈ total.within l.terms.step r.window, ¬x.2 ≤ l.terms.capacity) ∨
    ∃ maxShare, l.terms.rule = .userShareCap maxShare ∧
      ∃ x ∈ user.within l.terms.step r.window,
        ¬x.2 ≤ AdmissionRule.userLimit maxShare l.terms.capacity

/-- The causes for which the operation is refused, each with the kind of its refusal, in the order
in which they are looked for. -/
def Operation.causes (l : Ledger) : Operation → List (Prop × Report.Kind)
  | .add r =>
    let p := r.profile l.terms.step
    [(l.Malformed r, .invalidReservation),
      (∃ x, l.get? r.id = some x, .duplicateReservation),
      (l.Oversized r (l.total + p) (l.userDemand r.user + p), .capacityViolation)]
  | .replace r =>
    let q := r.profile l.terms.step
    [(l.Malformed r, .invalidReservation),
      (l.get? r.id = none, .unknownReservation),
      (∃ x, l.get? r.id = some x ∧ x.user ≠ r.user, .ownershipMismatch),
      (∃ x, l.get? r.id = some x ∧
        let p := x.profile l.terms.step
        l.Oversized r (l.total - p + q) (l.userDemand r.user - p + q), .capacityViolation)]
  | .remove id user =>
    [(l.get? id = none, .unknownReservation),
      (∃ x, l.get? id = some x ∧ x.user ≠ user, .ownershipMismatch)]
  | .archive _ => []

/-- The kind that goes with the first cause that holds, or nothing if none holds. -/
inductive Decides : List (Prop × Report.Kind) → Option Report.Kind → Prop where
  | nothing : Decides [] none
  | here {c : Prop} {k : Report.Kind} {rest : List (Prop × Report.Kind)} :
      c → Decides ((c, k) :: rest) (some k)
  | later {c : Prop} {k : Report.Kind} {rest : List (Prop × Report.Kind)}
      {answer : Option Report.Kind} :
      ¬c → Decides rest answer → Decides ((c, k) :: rest) answer

/-! ## Which cause decides -/

section Decision

variable {α β : Type} {rest : List (Prop × Report.Kind)}

/-- The kind of the refusal, if there is one. -/
def refusalKind? : Except Refusal α → Option Report.Kind
  | .ok _ => none
  | .error e => some e.report.kind

theorem refusalKind?_map {f : α → β} {x : Except Refusal α} :
    refusalKind? (x.map f) = refusalKind? x := by
  cases x <;> rfl

theorem checkProposal_eq_ok_iff_not_malformed : l.checkProposal r = .ok () ↔ ¬l.Malformed r := by
  rw [checkProposal_eq_ok_iff, Reservation.valid_iff]
  unfold Malformed
  push Not
  rfl

theorem kind_of_checkProposal {e : Refusal} (h : l.checkProposal r = .error e) :
    e.report.kind = .invalidReservation := by
  unfold checkProposal at h
  split at h
  · obtain rfl := Except.error.inj h
    rfl
  · split at h
    · obtain rfl := Except.error.inj h
      rfl
    · simp at h

/-- What is wrong with the proposal comes before what is found after the check. -/
theorem decides_checkProposal {f : Unit → Except Refusal α}
    (hrest : ¬l.Malformed r → Decides rest (refusalKind? (f ()))) :
    Decides ((l.Malformed r, .invalidReservation) :: rest)
      (refusalKind? (l.checkProposal r >>= f)) := by
  cases hcheck : l.checkProposal r with
  | error e =>
      have hmalformed : l.Malformed r := by
        by_contra hproper
        rw [checkProposal_eq_ok_iff_not_malformed.2 hproper] at hcheck
        simp at hcheck
      have hkind : refusalKind? (Except.error e >>= f) = some .invalidReservation :=
        congrArg some (kind_of_checkProposal hcheck)
      rw [hkind]
      exact .here hmalformed
  | ok u =>
      have hproper : ¬l.Malformed r := checkProposal_eq_ok_iff_not_malformed.1 hcheck
      exact .later hproper (hrest hproper)

/-- Whether there is such a reservation comes before whose it is, and both come before the rest. -/
theorem decides_owned {f : Reservation → Except Refusal α}
    (hrest : ∀ x, l.get? id = some x → x.user = user → Decides rest (refusalKind? (f x))) :
    Decides ((l.get? id = none, .unknownReservation) ::
        (∃ x, l.get? id = some x ∧ x.user ≠ user, .ownershipMismatch) :: rest)
      (refusalKind? (l.owned id user >>= f)) := by
  unfold owned
  cases hget : l.get? id with
  | none => exact .here rfl
  | some x =>
      apply Decides.later (by simp)
      by_cases huser : x.user = user
      · have hown : ¬∃ y, some x = some y ∧ y.user ≠ user := by
          rintro ⟨y, hy, hne⟩
          obtain rfl := Option.some.inj hy
          exact hne huser
        simp only [huser, if_true]
        exact .later hown (hrest x hget huser)
      · simp only [huser, if_false]
        exact .here ⟨x, rfl, huser⟩

theorem overrun?_eq_none_iff {s : Demand.Step} {window : Demand.Interval} {limit : Resource} :
    AdmissionRule.overrun? s window p limit = none ↔ ∀ x ∈ p.within s window, x.2 ≤ limit := by
  simp [AdmissionRule.overrun?]

theorem violation?_eq_none_iff :
    l.terms.rule.violation? l.terms.step r.window l.terms.capacity p q = none ↔
      ¬l.Oversized r p q := by
  unfold AdmissionRule.violation? Oversized
  cases l.terms.rule with
  | noOverCommit => simp [overrun?_eq_none_iff]
  | userShareCap maxShare => simp [overrun?_eq_none_iff]

/-- The rule is asked last. -/
theorem decides_enter {c : Prop} (hc : c ↔ l.Oversized r p q) :
    Decides [(c, .capacityViolation)] (refusalKind? (l.enter r p q)) := by
  unfold enter
  cases hrule : l.terms.rule.violation? l.terms.step r.window l.terms.capacity p q with
  | none => exact .later (hc.not.2 (violation?_eq_none_iff.1 hrule)) .nothing
  | some v =>
      apply Decides.here
      rw [hc]
      by_contra hsmall
      rw [violation?_eq_none_iff.2 hsmall] at hrule
      simp at hrule

end Decision

theorem decides_add : Decides ((Operation.add r).causes l) (refusalKind? (l.add r)) := by
  unfold add
  apply decides_checkProposal
  intro _
  cases hget : l.get? r.id with
  | none =>
      have hfree : l.reservations.contains r.id = false := by
        rw [Std.ExtTreeMap.contains_eq_isSome_getElem?]
        exact congrArg Option.isSome hget
      simp only [hfree]
      exact .later (by simp) (decides_enter Iff.rfl)
  | some x =>
      have htaken : l.reservations.contains r.id = true := by
        rw [Std.ExtTreeMap.contains_eq_isSome_getElem?]
        exact congrArg Option.isSome hget
      simp only [htaken]
      exact .here ⟨x, rfl⟩

theorem decides_replace : Decides ((Operation.replace r).causes l)
    (refusalKind? (l.replace r)) := by
  unfold replace
  apply decides_checkProposal
  intro _
  apply decides_owned
  intro x hx _
  apply decides_enter
  simp [hx]

theorem decides_remove : Decides ((Operation.remove id user).causes l)
    (refusalKind? (l.remove id user)) := by
  unfold remove
  apply decides_owned
  intro x _ _
  exact .nothing

/-- The first cause that holds decides. -/
theorem decides_perform : Decides (op.causes l) (refusalKind? (l.perform op)) := by
  cases op with
  | add r =>
      rw [perform, refusalKind?_map]
      exact decides_add
  | replace r =>
      rw [perform, refusalKind?_map]
      exact decides_replace
  | remove id user =>
      rw [perform, refusalKind?_map]
      exact decides_remove
  | archive now => exact .nothing

/-! ## Sessions -/

/-- What may be asked of a ledger that stays as it is. -/
inductive Question where
  | terms
  | size
  | reservation (id : ReservationId)
  | phase (id : ReservationId) (now : Int)
  | activeAt (t : Int)
  | demandAt (t : Int)
  | userDemandAt (user : String) (t : Int)

/-- The answer to a question. -/
inductive Reply where
  | terms (terms : Terms)
  | size (n : Nat)
  | reservation (r : Option Reservation)
  | phase (phase : Option Reservation.Phase)
  | active (rs : List Reservation)
  | demand (r : Resource)

def reply (l : Ledger) : Question → Reply
  | .terms => .terms l.terms
  | .size => .size l.size
  | .reservation id => .reservation (l.get? id)
  | .phase id now => .phase (l.phase? id now)
  | .activeAt t => .active (l.activeAt t)
  | .demandAt t => .demand (l.demandAt t)
  | .userDemandAt user t => .demand (l.userDemandAt user t)

/-- Operations and questions come in any order. -/
inductive Request where
  | change (op : Operation)
  | ask (q : Question)

inductive Response where
  | done (a : Answer)
  | refused (e : Refusal)
  | told (x : Reply)

def Response.isRefused : Response → Bool
  | .refused _ => true
  | .done _ | .told _ => false

/-- The kind of the refusal, if the response is one. -/
def Response.kind? : Response → Option Report.Kind
  | .refused e => some e.report.kind
  | .done _ | .told _ => none

/-- The response to a request and the ledger after it, as the procedure leaves it. -/
def handle (l : Ledger) : Request → Response × Ledger
  | .change op =>
    match (Procedure.serve op).run l with
    | .ok a m => (.done a, m)
    | .error e m => (.refused e, m)
  | .ask q => (.told (l.reply q), l)

/-- The responses to requests, one after another, and the ledger after the last. -/
def session (l : Ledger) : List Request → List Response × Ledger
  | [] => ([], l)
  | x :: xs =>
    let (y, m) := l.handle x
    let (ys, k) := m.session xs
    (y :: ys, k)

/-- The requests that were not refused. -/
def unrefused (requests : List Request) (responses : List Response) : List Request :=
  ((requests.zip responses).filter fun x => !x.2.isRefused).map (·.1)

theorem session_cons {x : Request} {xs : List Request} : l.session (x :: xs) =
    ((l.handle x).1 :: ((l.handle x).2.session xs).1, ((l.handle x).2.session xs).2) := rfl

theorem unrefused_cons {x : Request} {xs : List Request} {y : Response} {ys : List Response} :
    unrefused (x :: xs) (y :: ys) =
      if y.isRefused then unrefused xs ys else x :: unrefused xs ys := by
  cases hy : y.isRefused with
  | true => simp [unrefused, hy]
  | false => simp [unrefused, hy]

theorem Keyed.handle_change (h : l.Keyed) : l.handle (.change op) =
    match l.perform op with
    | .ok (a, m) => (.done a, m)
    | .error e => (.refused e, l) := by
  simp only [handle, Procedure.run_serve h]
  cases l.perform op <;> rfl

theorem Keyed.handle_change_snd (h : l.Keyed) : (l.handle (.change op)).2 = l.apply op := by
  rw [h.handle_change, Ledger.apply]
  cases l.perform op <;> rfl

theorem Keyed.handle (h : l.Keyed) (x : Request) : (l.handle x).2.Keyed := by
  cases x with
  | ask q => exact h
  | change op =>
      rw [h.handle_change_snd]
      exact h.apply op

/-- Operations that are carried out in place lead where the run of the ledger does. -/
theorem Keyed.session_changes (h : l.Keyed) (ops : List Operation) :
    (l.session (ops.map .change)).2 = l.run ops := by
  induction ops generalizing l with
  | nil => rfl
  | cons op ops ih =>
      have hrest := ih (h.handle (.change op))
      rw [h.handle_change_snd] at hrest
      rw [List.map_cons, session_cons, h.handle_change_snd, hrest]
      rfl

/-- A refused request leaves the ledger as it was. -/
theorem Keyed.handle_of_isRefused (h : l.Keyed) {x : Request} (hx : (l.handle x).1.isRefused) :
    (l.handle x).2 = l := by
  cases x with
  | ask q => rfl
  | change op =>
      rw [h.handle_change] at hx ⊢
      cases hop : l.perform op with
      | error e => rfl
      | ok y =>
          rw [hop] at hx
          contradiction

theorem Keyed.session_unrefused (h : l.Keyed) (requests : List Request) :
    l.session (unrefused requests (l.session requests).1) =
      ((l.session requests).1.filter (!·.isRefused), (l.session requests).2) := by
  induction requests generalizing l with
  | nil => rfl
  | cons x xs ih =>
      have hrest := ih (h.handle x)
      rw [session_cons, unrefused_cons]
      cases hx : (l.handle x).1.isRefused with
      | true =>
          have hsame : (l.handle x).2 = l := h.handle_of_isRefused hx
          rw [hsame] at hrest ⊢
          rw [if_pos rfl, hrest, List.filter_cons_of_neg (by simp [hx])]
      | false =>
          rw [if_neg Bool.false_ne_true, session_cons, hrest,
            List.filter_cons_of_pos (by simp [hx])]

/-- **Refused operations leave no trace, and the first cause decides.** Without the refused ones,
the other requests have the same responses and lead to the same ledger. -/
theorem refusals_leave_no_trace (h : l.Reachable) (requests : List Request) :
    l.session (unrefused requests (l.session requests).1) =
        ((l.session requests).1.filter (!·.isRefused), (l.session requests).2) ∧
      ∀ op, Decides (op.causes l) (l.handle (.change op)).1.kind? := by
  refine ⟨h.keyed.session_unrefused requests, fun op => ?_⟩
  have hkind : (l.handle (.change op)).1.kind? = refusalKind? (l.perform op) := by
    rw [h.keyed.handle_change]
    cases l.perform op <;> rfl
  rw [hkind]
  exact decides_perform

namespace Sample

/-- Refused for its demand, for its owner and for its identifier; the others are not. -/
def conversation : List Request :=
  [.change (.add saturating), .ask (.demandAt 20), .change (.remove ⟨2⟩ "u1"),
    .change (.archive 30), .change (.add filling), .ask (.reservation ⟨1⟩)]

end Sample

/-- Without its refused requests the conversation goes on in the same way. A demand that no word
holds is refused as a duplicate if its identifier is taken. -/
theorem sample_refusals_leave_no_trace :
    (Sample.ledger.session Sample.conversation).1.map (·.isRefused) =
        [true, false, true, false, true, false] ∧
      Sample.ledger.session [.ask (.demandAt 20), .change (.archive 30), .ask (.reservation ⟨1⟩)] =
        ((Sample.ledger.session Sample.conversation).1.filter (!·.isRefused),
          (Sample.ledger.session Sample.conversation).2) ∧
      Decides ((Operation.add { Sample.saturating with id := ⟨2⟩ }).causes Sample.ledger)
        (some .duplicateReservation) := by
  obtain ⟨htrace, hdecides⟩ :=
    refusals_leave_no_trace Sample.reachable_ledger Sample.conversation
  exact ⟨by decide +kernel, htrace, hdecides (.add { Sample.saturating with id := ⟨2⟩ })⟩

end Allotment.Ledger
