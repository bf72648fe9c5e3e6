import Mathlib.Data.List.Nodup
import Mathlib.Data.List.Perm.Basic
import Allotment.Ledger.Basic

/-!
# Runs of a ledger

A ledger is asked to add, replace, remove and archive, in any order and with any arguments, and goes
on from where it was if it refuses. Whatever is asked, the ledger moves by two steps only: an
admitted reservation is struck, or a new one is added. Replacing is striking the old version and
adding the new one, and archiving strikes one reservation after another, so a property that both
steps keep holds of every ledger that can be reached.
-/

namespace Allotment.Ledger

open Demand (Interval Step Profile)

/-! ## Operations and runs -/

/-- What may be asked of a ledger. -/
inductive Operation where
  | add (r : Reservation)
  | replace (r : Reservation)
  | remove (id : ReservationId) (user : String)
  | archive (now : Int)

/-- The operation takes reservations out and puts none in. -/
def Operation.IsRelease : Operation → Prop
  | .add _ | .replace _ => False
  | .remove _ _ | .archive _ => True

/-- What the operation puts in, if it puts something in, is as `Q` says. -/
def Operation.Asks (Q : Reservation → Prop) : Operation → Prop
  | .add r | .replace r => Q r
  | .remove _ _ | .archive _ => True

/-- What an operation that is not refused answers. -/
inductive Answer where
  | entered
  | removed (r : Reservation)
  | archived (ids : List ReservationId)

/-- The answer to an operation and the ledger after it. -/
def perform (l : Ledger) : Operation → Except Refusal (Answer × Ledger)
  | .add r => (l.add r).map fun m => (.entered, m)
  | .replace r => (l.replace r).map fun m => (.entered, m)
  | .remove id user => (l.remove id user).map fun (r, m) => (.removed r, m)
  | .archive now => .ok (.archived (l.archive now).1, (l.archive now).2)

/-- The ledger after an operation; a refused operation changes nothing. -/
def apply (l : Ledger) (op : Operation) : Ledger :=
  match l.perform op with
  | .ok (_, m) => m
  | .error _ => l

/-- The ledger after operations, one after another. -/
def run (l : Ledger) (ops : List Operation) : Ledger :=
  ops.foldl apply l

/-- The ledgers that come about from new ones by operations. -/
inductive Reachable : Ledger → Prop where
  | opened {queue : String} {ms : Int} {capacity : Resource} {rule : AdmissionRule} {l : Ledger} :
      open? queue ms capacity rule = .ok l → Reachable l
  | step {l : Ledger} (op : Operation) : Reachable l → Reachable (l.apply op)

/-- The reservations of the ledger. -/
def admitted (l : Ledger) : List Reservation :=
  l.reservations.toList.map (·.2)

variable {l m : Ledger} {r old : Reservation} {rs : List Reservation} {id : ReservationId}
  {p q : Profile} {user : String}

theorem open?_eq_ok {queue : String} {ms : Int} {capacity : Resource} {rule : AdmissionRule}
    (h : open? queue ms capacity rule = .ok l) :
    0 < ms ∧ l = empty ⟨queue, .ofInt ms, capacity, rule⟩ := by
  unfold open? at h
  split at h
  · next hpos => exact ⟨hpos, (Except.ok.inj h).symm⟩
  · simp at h

theorem Reachable.run (h : l.Reachable) (ops : List Operation) : (l.run ops).Reachable := by
  induction ops generalizing l with
  | nil => exact h
  | cons op ops ih => exact ih (h.step op)

/-! ## What each operation needs and does -/

theorem checkProposal_eq_ok_iff :
    l.checkProposal r = .ok () ↔ r.queue = l.terms.queue ∧ r.Valid := by
  unfold checkProposal Reservation.Valid
  split
  · next hqueue => simp [hqueue]
  · next hqueue =>
    cases hdefect : r.defect? with
    | none => simpa using hqueue
    | some d => simp

theorem owned_eq_ok_iff : l.owned id user = .ok r ↔ l.get? id = some r ∧ r.user = user := by
  unfold owned
  cases h : l.get? id with
  | none => simp
  | some x =>
      by_cases huser : x.user = user
      · simp only [huser, if_true, Except.ok.injEq, Option.some.injEq]
        constructor
        · rintro rfl
          exact ⟨rfl, huser⟩
        · exact And.left
      · simp only [huser, if_false, Option.some.injEq, reduceCtorEq, false_iff, not_and]
        rintro rfl
        exact huser

theorem remove_eq_ok (hget : l.get? id = some r) (huser : r.user = user) :
    l.remove id user = .ok (r, l.strike r) := by
  unfold remove
  rw [owned_eq_ok_iff.2 ⟨hget, huser⟩]
  rfl

theorem enter_eq_ok_iff :
    l.enter r p q = .ok m ↔
      l.terms.rule.violation? l.terms.step r.window l.terms.capacity p q = none ∧
      m = { l with
        reservations := l.reservations.insert r.id r
        total := p
        byUser := setUserDemand l.byUser r.user q } := by
  unfold enter
  cases h : l.terms.rule.violation? l.terms.step r.window l.terms.capacity p q with
  | none => simp [eq_comm]
  | some v => simp

/-- The ledger answers a new proposal by its rule once nothing else is wrong with it. -/
theorem add_eq_enter (hcheck : l.checkProposal r = .ok ()) (hnew : l.get? r.id = none) :
    l.add r = l.enter r (l.total + r.profile l.terms.step)
      (l.userDemand r.user + r.profile l.terms.step) := by
  have hcontains : l.reservations.contains r.id = false := by
    unfold get? at hnew
    rw [Std.ExtTreeMap.contains_eq_isSome_getElem?, hnew]
    rfl
  unfold add
  rw [hcheck]
  simp only [hcontains]
  rfl

theorem add_eq_ok_iff :
    l.add r = .ok m ↔ l.checkProposal r = .ok () ∧ l.get? r.id = none ∧
      l.enter r (l.total + r.profile l.terms.step)
        (l.userDemand r.user + r.profile l.terms.step) = .ok m := by
  constructor
  · intro h
    have hcheck : l.checkProposal r = .ok () := by
      cases hc : l.checkProposal r with
      | error e => simp [add, hc, bind, Except.bind] at h
      | ok u => rfl
    have hnew : l.get? r.id = none := by
      cases hg : l.get? r.id with
      | none => rfl
      | some x =>
          have hcontains : l.reservations.contains r.id = true := by
            unfold get? at hg
            rw [Std.ExtTreeMap.contains_eq_isSome_getElem?, hg]
            rfl
          simp [add, hcheck, hcontains, bind, Except.bind, throw, throwThe,
            MonadExceptOf.throw] at h
    exact ⟨hcheck, hnew, add_eq_enter hcheck hnew ▸ h⟩
  · rintro ⟨hcheck, hnew, h⟩
    rw [add_eq_enter hcheck hnew, h]

/-! ## Where an operation leads -/

theorem apply_add : l.apply (.add r) = (l.add r).toOption.getD l := by
  simp only [apply, perform]
  cases l.add r <;> rfl

theorem apply_replace : l.apply (.replace r) = (l.replace r).toOption.getD l := by
  simp only [apply, perform]
  cases l.replace r <;> rfl

theorem apply_remove (hget : l.get? id = some r) (huser : r.user = user) :
    l.apply (.remove id user) = l.strike r := by
  simp only [apply, perform, remove_eq_ok hget huser]
  rfl

theorem apply_remove_of_error {e : Refusal} (h : l.owned id user = .error e) :
    l.apply (.remove id user) = l := by
  simp [apply, perform, remove, h, Except.map, bind, Except.bind]

/-! ## Reservations are kept under their identifiers -/

/-- Each reservation is found under its own identifier. -/
def Keyed (l : Ledger) : Prop :=
  ∀ id r, l.get? id = some r → r.id = id

theorem keyed_empty {terms : Terms} : (empty terms).Keyed := by
  intro id r h
  rw [get?_empty] at h
  simp at h

theorem Keyed.strike (h : l.Keyed) : (l.strike r).Keyed := by
  intro id x hx
  rw [get?_strike] at hx
  split at hx
  · simp at hx
  · exact h id x hx

theorem get?_of_add (hadd : l.add r = .ok m) :
    m.get? id = if r.id = id then some r else l.get? id :=
  get?_of_enter (add_eq_ok_iff.1 hadd).2.2

theorem Keyed.of_add (h : l.Keyed) (hadd : l.add r = .ok m) : m.Keyed := by
  intro id x hx
  rw [get?_of_add hadd] at hx
  split at hx
  · next hid => exact Option.some.inj hx ▸ hid
  · exact h id x hx

theorem mem_admitted_iff : r ∈ l.admitted ↔ ∃ id, l.get? id = some r := by
  unfold admitted get?
  constructor
  · intro h
    obtain ⟨x, hx, rfl⟩ := List.mem_map.1 h
    exact ⟨x.1, Std.ExtTreeMap.mem_toList_iff_getElem?_eq_some.1 hx⟩
  · rintro ⟨id, h⟩
    exact List.mem_map.2 ⟨(id, r), Std.ExtTreeMap.mem_toList_iff_getElem?_eq_some.2 h, rfl⟩

theorem Keyed.mem_admitted_iff (h : l.Keyed) : r ∈ l.admitted ↔ l.get? r.id = some r := by
  rw [Ledger.mem_admitted_iff]
  constructor
  · rintro ⟨id, hr⟩
    rwa [h id r hr]
  · exact fun hr => ⟨r.id, hr⟩

theorem nodup_toList (l : Ledger) : l.reservations.toList.Nodup := by
  apply (Std.ExtTreeMap.distinct_keys_toList (t := l.reservations)).imp
  rintro x y h rfl
  exact h (Std.ReflCmp.compare_self)

/-- No two reservations share an identifier. -/
theorem Keyed.pairwise_admitted (h : l.Keyed) : l.admitted.Pairwise fun x y => x.id ≠ y.id := by
  unfold admitted
  rw [List.pairwise_map]
  apply (Std.ExtTreeMap.distinct_keys_toList (t := l.reservations)).imp_of_mem
  intro x y hx hy hne heq
  apply hne
  rw [Std.LawfulEqCmp.compare_eq_iff_eq,
    ← h x.1 x.2 (Std.ExtTreeMap.mem_toList_iff_getElem?_eq_some.1 hx),
    ← h y.1 y.2 (Std.ExtTreeMap.mem_toList_iff_getElem?_eq_some.1 hy), heq]

theorem Keyed.nodup_admitted (h : l.Keyed) : l.admitted.Nodup := by
  apply h.pairwise_admitted.imp
  rintro x y hne rfl
  exact hne rfl

/-- The reservations that are past their windows. -/
def past (l : Ledger) (now : Int) : List Reservation :=
  l.admitted.filter fun r => r.phase now = .completed

theorem archive_eq {now : Int} :
    l.archive now = ((l.past now).map (·.id), (l.past now).foldl strike l) := rfl

theorem Keyed.pairwise_past (h : l.Keyed) (now : Int) :
    (l.past now).Pairwise fun x y => x.id ≠ y.id :=
  h.pairwise_admitted.filter _

theorem Keyed.mem_past_iff (h : l.Keyed) {now : Int} :
    r ∈ l.past now ↔ l.get? r.id = some r ∧ r.phase now = .completed := by
  rw [past, List.mem_filter, h.mem_admitted_iff, decide_eq_true_iff]

/-- Striking takes the reservation, and it alone, out of those admitted. -/
theorem admitted_perm_cons_strike (h : l.get? r.id = some r) :
    l.admitted.Perm (r :: (l.strike r).admitted) := by
  have hperm : l.reservations.toList.Perm ((r.id, r) :: (l.strike r).reservations.toList) := by
    have hnot : (r.id, r) ∉ (l.strike r).reservations.toList := by
      rw [Std.ExtTreeMap.mem_toList_iff_getElem?_eq_some]
      change ¬(l.strike r).get? r.id = some r
      simp [get?_strike]
    rw [List.perm_ext_iff_of_nodup (nodup_toList l) (List.nodup_cons.2 ⟨hnot, nodup_toList _⟩)]
    rintro ⟨id, x⟩
    rw [List.mem_cons, Std.ExtTreeMap.mem_toList_iff_getElem?_eq_some,
      Std.ExtTreeMap.mem_toList_iff_getElem?_eq_some]
    change l.get? id = some x ↔ (id, x) = (r.id, r) ∨ (l.strike r).get? id = some x
    rw [get?_strike, Prod.mk.injEq]
    by_cases hid : r.id = id
    · subst hid
      simp [h, eq_comm]
    · simp [hid, Ne.symm hid]
  exact hperm.map _

theorem mem_admitted_of_strike {x : Reservation} (h : x ∈ (l.strike r).admitted) :
    x ∈ l.admitted := by
  obtain ⟨id, hx⟩ := mem_admitted_iff.1 h
  rw [get?_strike] at hx
  split at hx
  · simp at hx
  · exact mem_admitted_iff.2 ⟨id, hx⟩

theorem get?_self_of_add (hadd : l.add r = .ok m) : m.get? r.id = some r := by
  rw [get?_of_add hadd, if_pos rfl]

/-- Once what was added is struck again, the reservations are those from before. -/
theorem reservations_strike_of_add (hadd : l.add r = .ok m) :
    (m.strike r).reservations = l.reservations := by
  obtain ⟨_, hnew, _⟩ := add_eq_ok_iff.1 hadd
  apply Std.ExtTreeMap.ext_getElem?
  intro id
  change (m.strike r).get? id = l.get? id
  rw [get?_strike, get?_of_add hadd]
  split
  · next hid => rw [← hid, hnew]
  · rfl

theorem admitted_strike_of_add (hadd : l.add r = .ok m) : (m.strike r).admitted = l.admitted := by
  unfold admitted
  rw [reservations_strike_of_add hadd]

/-- Adding puts the reservation, and it alone, among those admitted. -/
theorem admitted_perm_of_add (hadd : l.add r = .ok m) : m.admitted.Perm (r :: l.admitted) := by
  rw [← admitted_strike_of_add hadd]
  exact admitted_perm_cons_strike (get?_self_of_add hadd)

theorem forall_mem_admitted_of_add {Q : Reservation → Prop} (hadd : l.add r = .ok m) (hr : Q r)
    (h : ∀ x ∈ l.admitted, Q x) : ∀ x ∈ m.admitted, Q x := by
  intro x hx
  exact List.forall_mem_cons.2 ⟨hr, h⟩ x ((admitted_perm_of_add hadd).mem_iff.1 hx)

/-! ## What adding does to the books -/

theorem terms_of_add (hadd : l.add r = .ok m) : m.terms = l.terms := by
  obtain ⟨_, _, henter⟩ := add_eq_ok_iff.1 hadd
  rw [(enter_eq_ok_iff.1 henter).2]

theorem total_of_add (hadd : l.add r = .ok m) : m.total = l.total + r.profile l.terms.step := by
  obtain ⟨_, _, henter⟩ := add_eq_ok_iff.1 hadd
  rw [(enter_eq_ok_iff.1 henter).2]

theorem userDemand_of_add (hadd : l.add r = .ok m) : m.userDemand user =
    if r.user = user then l.userDemand user + r.profile l.terms.step else l.userDemand user := by
  rw [userDemand_of_enter (add_eq_ok_iff.1 hadd).2.2]
  split
  · next howner => rw [howner]
  · rfl

/-! ## Replacing is striking and adding -/

theorem setUserDemand_setUserDemand {byUser : Std.ExtTreeMap String Profile} :
    setUserDemand (setUserDemand byUser user p) user q = setUserDemand byUser user q := by
  apply Std.ExtTreeMap.ext_getElem?
  intro u
  unfold setUserDemand
  by_cases hq : q.isEmpty <;> by_cases hp : p.isEmpty <;> by_cases hu : user = u <;>
    simp [hq, hp, hu, Std.ExtTreeMap.getElem?_insert, Std.ExtTreeMap.getElem?_erase]

theorem enter_strike (hid : old.id = r.id) (huser : old.user = r.user) :
    (l.strike old).enter r p q = l.enter r p q := by
  have hreservations :
      (l.reservations.erase old.id).insert r.id r = l.reservations.insert r.id r := by
    apply Std.ExtTreeMap.ext_getElem?
    intro id
    rw [hid, Std.ExtTreeMap.getElem?_insert, Std.ExtTreeMap.getElem?_insert,
      Std.ExtTreeMap.getElem?_erase]
    split <;> rfl
  unfold enter strike
  simp only [hreservations, huser, setUserDemand_setUserDemand]

/-- A proposal that replaces a reservation is judged, and entered, as a new one once the old version
has been struck. -/
theorem replace_eq_add_strike (hcheck : l.checkProposal r = .ok ())
    (hold : l.get? r.id = some old) (hid : old.id = r.id) (huser : old.user = r.user) :
    l.replace r = (l.strike old).add r := by
  have hnew : (l.strike old).get? r.id = none := by
    rw [get?_strike, if_pos hid]
  have hreplace : l.replace r = l.enter r
      (l.total - old.profile l.terms.step + r.profile l.terms.step)
      (l.userDemand r.user - old.profile l.terms.step + r.profile l.terms.step) := by
    unfold replace
    rw [hcheck, owned_eq_ok_iff.2 ⟨hold, huser⟩]
    rfl
  rw [add_eq_enter (l := l.strike old) hcheck hnew, enter_strike hid huser, hreplace,
    userDemand_strike, if_pos huser]
  rfl

theorem replace_eq_ok (h : l.replace r = .ok m) :
    ∃ old, l.get? r.id = some old ∧ old.user = r.user ∧ l.checkProposal r = .ok () := by
  unfold replace at h
  cases hcheck : l.checkProposal r with
  | error e => simp [hcheck, bind, Except.bind] at h
  | ok u =>
      cases howned : l.owned r.id r.user with
      | error e => simp [hcheck, howned, bind, Except.bind] at h
      | ok old =>
          obtain ⟨hget, huser⟩ := owned_eq_ok_iff.1 howned
          exact ⟨old, hget, huser, rfl⟩

/-! ## What striking and adding keep, every run keeps -/

section Steps

variable {P : Ledger → Prop} {Q : Reservation → Prop}
  (hstrike : ∀ l r, P l → l.get? r.id = some r → P (l.strike r))
  (hadd : ∀ l r m, Q r → P l → l.add r = .ok m → P m)

include hstrike

theorem foldl_strike_of_strike (hrs : rs.Pairwise fun x y => x.id ≠ y.id)
    (hget : ∀ r ∈ rs, l.get? r.id = some r) (h : P l) : P (rs.foldl strike l) := by
  induction rs generalizing l with
  | nil => exact h
  | cons r rs ih =>
      obtain ⟨hhead, hrest⟩ := List.pairwise_cons.1 hrs
      apply ih hrest
      · intro x hx
        rw [get?_strike, if_neg (hhead x hx)]
        exact hget x (List.mem_cons_of_mem r hx)
      · exact hstrike l r h (hget r List.mem_cons_self)

/-- A release keeps what striking keeps. -/
theorem apply_of_strike (hkeyed : l.Keyed) (h : P l) {op : Operation} (hop : op.IsRelease) :
    P (l.apply op) := by
  cases op with
  | add r => exact hop.elim
  | replace r => exact hop.elim
  | remove id user =>
      cases howned : l.owned id user with
      | error e => rwa [apply_remove_of_error howned]
      | ok r =>
          obtain ⟨hget, huser⟩ := owned_eq_ok_iff.1 howned
          rw [apply_remove hget huser]
          exact hstrike l r h (hkeyed id r hget ▸ hget)
  | archive now =>
      apply foldl_strike_of_strike hstrike (hkeyed.pairwise_past now) _ h
      intro r hr
      exact (hkeyed.mem_past_iff.1 hr).1

include hadd

/-- An operation keeps what striking keeps, and adding what the operation asks for. -/
theorem apply_of_strike_of_add (hkeyed : l.Keyed) (h : P l) {op : Operation} (hop : op.Asks Q) :
    P (l.apply op) := by
  cases op with
  | add r =>
      rw [apply_add]
      cases hm : l.add r with
      | error e => exact h
      | ok m => exact hadd l r m hop h hm
  | replace r =>
      rw [apply_replace]
      cases hm : l.replace r with
      | error e => exact h
      | ok m =>
          obtain ⟨old, hold, huser, hcheck⟩ := replace_eq_ok hm
          have hid : old.id = r.id := hkeyed r.id old hold
          rw [replace_eq_add_strike hcheck hold hid huser] at hm
          exact hadd _ r m hop (hstrike l old h (hid ▸ hold)) hm
  | remove id user => exact apply_of_strike hstrike hkeyed h trivial
  | archive now => exact apply_of_strike hstrike hkeyed h trivial

end Steps

theorem Operation.asks_true (op : Operation) : op.Asks fun _ => True := by
  cases op <;> trivial

theorem Keyed.apply (h : l.Keyed) (op : Operation) : (l.apply op).Keyed :=
  apply_of_strike_of_add (fun _ _ h _ => h.strike) (fun _ _ _ _ h hadd => h.of_add hadd) h h
    op.asks_true

theorem Reachable.keyed (h : l.Reachable) : l.Keyed := by
  induction h with
  | opened hopen =>
      obtain ⟨_, rfl⟩ := open?_eq_ok hopen
      exact keyed_empty
  | step op _ ih => exact ih.apply op

/-- What holds of empty ledgers and is kept by striking and adding holds of every ledger that can
be reached. -/
theorem Reachable.of_strike_of_add {P : Ledger → Prop} (hempty : ∀ terms, P (empty terms))
    (hstrike : ∀ l r, P l → l.get? r.id = some r → P (l.strike r))
    (hadd : ∀ l r m, P l → l.add r = .ok m → P m) (h : l.Reachable) : P l := by
  induction h with
  | opened hopen =>
      obtain ⟨_, rfl⟩ := open?_eq_ok hopen
      exact hempty _
  | step op h ih =>
      exact apply_of_strike_of_add hstrike (fun l r m _ => hadd l r m) h.keyed ih op.asks_true

theorem Reachable.of_add (h : l.Reachable) (hadd : l.add r = .ok m) : m.Reachable := by
  have hstep := h.step (.add r)
  rw [apply_add, hadd] at hstep
  exact hstep

/-! ## The terms of a ledger stay -/

theorem Keyed.terms_apply (h : l.Keyed) (op : Operation) : (l.apply op).terms = l.terms :=
  apply_of_strike_of_add (P := fun m => m.terms = l.terms) (fun _ _ h _ => h)
    (fun _ _ _ _ h hadd => (terms_of_add hadd).trans h) h rfl op.asks_true

theorem Keyed.terms_run (h : l.Keyed) (ops : List Operation) : (l.run ops).terms = l.terms := by
  induction ops generalizing l with
  | nil => rfl
  | cons op ops ih => exact (ih (h.apply op)).trans (h.terms_apply op)

/-! ## A small run -/

/-- Whether something was refused can be evaluated. -/
theorem exists_eq_ok_of_isOk {α : Type} {x : Except Refusal α} (h : x.isOk = true) :
    ∃ a, x = .ok a := by
  cases x with
  | ok a => exact ⟨a, rfl⟩
  | error e => contradiction

theorem exists_eq_error_of_not_isOk {α : Type} {x : Except Refusal α} (h : x.isOk = false) :
    ∃ e, x = .error e := by
  cases x with
  | ok a => contradiction
  | error e => exact ⟨e, rfl⟩

namespace Sample

/-- Buckets of ten milliseconds under a small capacity. -/
def terms : Terms :=
  ⟨"dedicated", ⟨10, by decide⟩, .ofAmounts 100 10 10, .noOverCommit⟩

/-- Demands that begin and end inside of buckets, and overlap. -/
def misaligned : Reservation :=
  ⟨⟨1⟩, "u1", "dedicated", ⟨0, 30⟩,
    .ofList [(⟨5, 15⟩, .ofAmounts 60 1 0), (⟨10, 30⟩, .ofAmounts 40 2 5)]⟩

/-- Fills the capacity together with `misaligned`. -/
def filling : Reservation :=
  ⟨⟨2⟩, "u2", "dedicated", ⟨20, 40⟩, .ofList [(⟨20, 40⟩, .ofAmounts 60 1 0)]⟩

/-- Demands whose sum no word can hold. -/
def saturating : Reservation :=
  ⟨⟨3⟩, "u2", "dedicated", ⟨0, 10⟩, .ofList [(⟨0, 5⟩, .unbounded), (⟨0, 10⟩, .unbounded)]⟩

/-- The third is refused for its demand, and the last because `u1` does not own the reservation. -/
def requests : List Operation :=
  [.add misaligned, .add filling, .add saturating, .remove ⟨2⟩ "u1"]

def ledger : Ledger :=
  (empty terms).run requests

theorem open?_terms :
    open? "dedicated" 10 (.ofAmounts 100 10 10) .noOverCommit = .ok (empty terms) := rfl

theorem reachable_ledger : ledger.Reachable :=
  Reachable.run (.opened open?_terms) requests

theorem terms_ledger : ledger.terms = terms :=
  keyed_empty.terms_run requests

end Sample

end Allotment.Ledger
