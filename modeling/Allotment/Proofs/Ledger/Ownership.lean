import Allotment.Proofs.Ledger.Run
import Allotment.Proofs.Reservation.Load

/-!
# Owners keep their reservations

A reservation stays in the ledger just as it was admitted until its owner replaces it or removes it,
or it is archived past its window. Whatever else is asked of the ledger leaves it alone, refused or
not: other users cannot reach it, and neither can its owner by adding it again. An identifier can
pass to another user once it has been free in between, and then all of this holds for the new owner.
-/

namespace Allotment

theorem Reservation.phase_eq_completed_iff {r : Reservation} {now : Int} :
    r.phase now = .completed ↔ r.window.start ≤ now ∧ r.window.stop ≤ now := by
  unfold phase
  split
  · simp only [reduceCtorEq, false_iff]
    omega
  · split
    · simp only [reduceCtorEq, false_iff]
      omega
    · simp only [true_iff]
      omega

namespace Ledger

variable {l m : Ledger} {r x : Reservation} {id : ReservationId} {op : Operation}

/-! ## What ends a reservation -/

/-- The operation names the reservation by its identifier and its owner, or a time past its
window. -/
def Operation.Names (r : Reservation) : Operation → Prop
  | .add x | .replace x => x.id = r.id ∧ x.user = r.user
  | .remove id user => id = r.id ∧ user = r.user
  | .archive now => r.window.stop ≤ now

instance (r : Reservation) (op : Operation) : Decidable (op.Names r) :=
  match op with
  | .add _ | .replace _ | .remove _ _ => inferInstanceAs (Decidable (_ ∧ _))
  | .archive _ => inferInstanceAs (Decidable (_ ≤ _))

/-- The owner replaces the reservation or removes it, and is not refused, or it is archived past its
window. -/
def Ends (l : Ledger) (r : Reservation) : Operation → Prop
  | .add _ => False
  | .replace x => x.id = r.id ∧ x.user = r.user ∧ ∃ m, l.replace x = .ok m
  | .remove id user => id = r.id ∧ user = r.user ∧ ∃ x m, l.remove id user = .ok (x, m)
  | .archive now => r.window.stop ≤ now

/-- What the operation puts in the place of the reservation that it ends. -/
def Operation.successor? : Operation → Option Reservation
  | .replace x => some x
  | .add _ | .remove _ _ | .archive _ => none

theorem Ends.names (h : l.Ends r op) : op.Names r := by
  cases op with
  | add x => exact h.elim
  | replace x => exact ⟨h.1, h.2.1⟩
  | remove id user => exact ⟨h.1, h.2.1⟩
  | archive now => exact h

/-! ## What each operation leaves under an identifier -/

theorem Keyed.get?_of_replace (h : l.Keyed) (hm : l.replace r = .ok m) :
    m.get? id = if r.id = id then some r else l.get? id := by
  obtain ⟨old, hold, huser, hcheck⟩ := replace_eq_ok hm
  have hid : old.id = r.id := h r.id old hold
  rw [replace_eq_add_strike hcheck hold hid huser] at hm
  rw [get?_of_add hm, get?_strike, hid]
  split <;> rfl

theorem get?_foldl_strike (rs : List Reservation) (id : ReservationId) :
    (rs.foldl strike l).get? id = if ∃ x ∈ rs, x.id = id then none else l.get? id := by
  induction rs generalizing l with
  | nil => simp
  | cons x rs ih =>
      rw [List.foldl_cons, ih, get?_strike]
      by_cases hx : x.id = id
      · simp [hx]
      · simp [hx]

theorem Keyed.get?_archive (h : l.Keyed) (hr : l.get? id = some r) (now : Int) :
    (l.archive now).2.get? id = if r.phase now = .completed then none else some r := by
  have hid : r.id = id := h id r hr
  have hpast : (∃ x ∈ l.past now, x.id = id) ↔ r.phase now = .completed := by
    constructor
    · rintro ⟨x, hx, hxid⟩
      obtain ⟨hget, hphase⟩ := h.mem_past_iff.1 hx
      rw [hxid, hr] at hget
      obtain rfl := Option.some.inj hget
      exact hphase
    · intro hphase
      exact ⟨r, h.mem_past_iff.2 ⟨hid ▸ hr, hphase⟩, hid⟩
  rw [archive_eq, get?_foldl_strike, hr]
  simp only [hpast]

/-- What does not end a reservation leaves it as it is. -/
theorem Keyed.get?_apply_of_not_ends (h : l.Keyed) (hr : l.get? id = some r)
    (hkept : ¬l.Ends r op) : (l.apply op).get? id = some r := by
  have hid : r.id = id := h id r hr
  cases op with
  | add x =>
      rw [apply_add]
      cases hm : l.add x with
      | error e => exact hr
      | ok m =>
          -- what is taken on has an identifier that was free
          have hne : x.id ≠ id := by
            rintro rfl
            simp [(add_eq_ok_iff.1 hm).2.1] at hr
          exact (get?_of_add hm).trans ((if_neg hne).trans hr)
  | replace x =>
      rw [apply_replace]
      cases hm : l.replace x with
      | error e => exact hr
      | ok m =>
          -- only the owner is not refused, and under this identifier that would end `r`
          have hne : x.id ≠ id := by
            rintro rfl
            obtain ⟨old, hold, huser, _⟩ := replace_eq_ok hm
            obtain rfl := Option.some.inj (hr.symm.trans hold)
            exact hkept ⟨hid.symm, huser.symm, m, hm⟩
          exact (h.get?_of_replace hm).trans ((if_neg hne).trans hr)
  | remove i user =>
      cases howned : l.owned i user with
      | error e => rw [apply_remove_of_error howned, hr]
      | ok x =>
          obtain ⟨hx, huser⟩ := owned_eq_ok_iff.1 howned
          have hxid : x.id = i := h i x hx
          have hne : x.id ≠ id := by
            rintro rfl
            obtain rfl := Option.some.inj (hr.symm.trans (hxid ▸ hx))
            exact hkept ⟨hxid.symm, huser.symm, r, _, remove_eq_ok hx huser⟩
          rw [apply_remove hx huser, get?_strike, if_neg hne, hr]
  | archive now =>
      have hphase : r.phase now ≠ .completed :=
        fun hphase => hkept (Reservation.phase_eq_completed_iff.1 hphase).2
      exact (h.get?_archive hr now).trans (if_neg hphase)

theorem Reachable.valid_of_get? (h : l.Reachable) : ∀ id r, l.get? id = some r → r.Valid := by
  apply h.of_strike_of_add (P := fun l => ∀ id r, l.get? id = some r → r.Valid)
  · intro terms id r hr
    simp [get?_empty] at hr
  · intro l x hl _ id r hr
    rw [get?_strike] at hr
    split at hr
    · simp at hr
    · exact hl id r hr
  · intro l x m hl hadd id r hr
    rw [get?_of_add hadd] at hr
    split at hr
    · obtain rfl := Option.some.inj hr
      exact (checkProposal_eq_ok_iff.1 (add_eq_ok_iff.1 hadd).1).2
    · exact hl id r hr

/-- What ends a reservation leaves its successor, if there is one, under the identifier. -/
theorem Reachable.get?_apply_of_ends (h : l.Reachable) (hr : l.get? id = some r)
    (hends : l.Ends r op) : (l.apply op).get? id = op.successor? := by
  have hid : r.id = id := h.keyed id r hr
  cases op with
  | add x => exact hends.elim
  | replace x =>
      obtain ⟨hx, _, m, hm⟩ := hends
      rw [apply_replace, hm]
      exact (h.keyed.get?_of_replace hm).trans (if_pos (hx.trans hid))
  | remove i user =>
      obtain ⟨rfl, rfl, _⟩ := hends
      rw [apply_remove (hid ▸ hr) rfl, get?_strike, if_pos hid]
      rfl
  | archive now =>
      have hstop : r.window.stop ≤ now := hends
      have hwindow : ¬r.window.stop ≤ r.window.start :=
        (Reservation.valid_iff.1 (h.valid_of_get? id r hr)).2.1
      have hphase : r.phase now = .completed :=
        Reservation.phase_eq_completed_iff.2 ⟨by omega, hstop⟩
      exact (h.keyed.get?_archive hr now).trans (if_pos hphase)

theorem Reachable.user_eq_of_apply (h : l.Reachable) (hr : l.get? id = some r)
    (hx : (l.apply op).get? id = some x) : x.user = r.user := by
  by_cases hends : l.Ends r op
  · rw [h.get?_apply_of_ends hr hends] at hx
    cases op with
    | replace y =>
        obtain rfl := Option.some.inj hx
        exact hends.2.1
    | add y => simp [Operation.successor?] at hx
    | remove i user => simp [Operation.successor?] at hx
    | archive now => simp [Operation.successor?] at hx
  · rw [h.keyed.get?_apply_of_not_ends hr hends] at hx
    rw [Option.some.inj hx]

/-! ## Runs -/

theorem Keyed.get?_run_of_not_ends (h : l.Keyed) (hr : l.get? id = some r) {ops : List Operation}
    (hkept : ∀ earlier op, earlier ++ [op] <+: ops → ¬(l.run earlier).Ends r op) :
    (l.run ops).get? id = some r := by
  induction ops generalizing l with
  | nil => exact hr
  | cons op ops ih =>
      have hstep : (l.apply op).get? id = some r :=
        h.get?_apply_of_not_ends hr (hkept [] op (List.prefix_append [op] ops))
      apply ih (h.apply op) hstep
      intro earlier last hearlier
      exact hkept (op :: earlier) last (List.cons_prefix_cons.2 ⟨rfl, hearlier⟩)

theorem Reachable.user_eq_of_run (h : l.Reachable) (hr : l.get? id = some r) {ops : List Operation}
    (hheld : ∀ earlier, earlier <+: ops → ((l.run earlier).get? id).isSome) :
    ∃ x, (l.run ops).get? id = some x ∧ x.user = r.user := by
  induction ops generalizing l r with
  | nil => exact ⟨r, hr, rfl⟩
  | cons op ops ih =>
      obtain ⟨y, hy⟩ := Option.isSome_iff_exists.1 (hheld [op] (List.prefix_append [op] ops))
      have hrest : ∀ earlier, earlier <+: ops → (((l.apply op).run earlier).get? id).isSome :=
        fun earlier hearlier => hheld (op :: earlier) (List.cons_prefix_cons.2 ⟨rfl, hearlier⟩)
      obtain ⟨x, hx, huser⟩ := ih (h.step op) hy hrest
      exact ⟨x, hx, huser.trans (h.user_eq_of_apply hr hy)⟩

/-- **Only its owner and time end a reservation.** Until an operation ends it, it is found unchanged
whatever else is done. -/
theorem reservation_stays_until_ended (h : l.Reachable) (hr : l.get? id = some r)
    (ops : List Operation) :
    ((∀ earlier op, earlier ++ [op] <+: ops → ¬(l.run earlier).Ends r op) →
      (l.run ops).get? id = some r) ∧
    ((∀ op ∈ ops, ¬op.Names r) → (l.run ops).get? id = some r) ∧
    (∀ last, (l.run ops).get? id = some r → (l.run ops).Ends r last →
      (l.run (ops ++ [last])).get? id = last.successor?) ∧
    ((∀ earlier, earlier <+: ops → ((l.run earlier).get? id).isSome) →
      ∃ x, (l.run ops).get? id = some x ∧ x.user = r.user) := by
  refine ⟨h.keyed.get?_run_of_not_ends hr, fun hnames => ?_, fun last hheld hends => ?_,
    h.user_eq_of_run hr⟩
  · apply h.keyed.get?_run_of_not_ends hr
    intro earlier op hearlier hends
    have hmem : op ∈ ops := hearlier.subset (by simp)
    exact hnames op hmem hends.names
  · have hlast : l.run (ops ++ [last]) = (l.run ops).apply last := by
      simp [run]
    rw [hlast, (h.run ops).get?_apply_of_ends hheld hends]

namespace Sample

/-- A reservation of `u1` under the identifier of `filling`. -/
def usurping : Reservation :=
  ⟨⟨2⟩, "u1", "dedicated", ⟨60, 80⟩, .ofList [(⟨60, 80⟩, .ofAmounts 1 0 0)]⟩

/-- None of these reaches `filling`; the archive takes `misaligned` out. -/
def foreign : List Operation :=
  [.add usurping, .replace usurping, .remove ⟨2⟩ "u1", .archive 39, .remove ⟨7⟩ "u2"]

end Sample

/-- `filling` outlasts what others ask for, is archived at the end of its window, and leaves its
identifier free for another user. -/
theorem sample_reservation_stays_until_ended :
    (Sample.ledger.run Sample.foreign).get? ⟨2⟩ = some Sample.filling ∧
    (Sample.ledger.run (Sample.foreign ++ [.archive 40])).get? ⟨2⟩ = none ∧
    ∃ m, (Sample.ledger.run (Sample.foreign ++ [.archive 40])).add Sample.usurping = .ok m := by
  have hfilling : Sample.ledger.get? ⟨2⟩ = some Sample.filling := by rfl
  obtain ⟨_, hunnamed, hended, _⟩ :=
    reservation_stays_until_ended Sample.reachable_ledger hfilling Sample.foreign
  have hkept := hunnamed (by decide +kernel)
  have hforty : (40 : Int) ≤ 40 := Int.le_refl 40
  exact ⟨hkept, hended (.archive 40) hkept hforty, exists_eq_ok_of_isOk (by decide +kernel)⟩

end Ledger

end Allotment
