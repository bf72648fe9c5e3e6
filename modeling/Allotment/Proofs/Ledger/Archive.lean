import Allotment.Proofs.Ledger.Canonical
import Allotment.Proofs.Ledger.Ownership
import Allotment.Proofs.Ledger.Procedure

/-!
# The archive takes the past and nothing else

Archiving strikes the reservations that are past their windows, one after another, in whatever order
they are found. What is struck asks for nothing from the end of its window on, not even where a
bucket begins later than that, so no demand from then on is touched. Demands are taken away with
saturation; but they are never below zero, so the order makes no difference, under any capacity, and
to archive twice is to archive once at the later time.
-/

namespace Allotment

open Demand (Profile Step)

/-! ## Taking demands away in any order -/

theorem Word.clamp_clamp_sub {w : Word} {x y z : Int} (hx : w.Holds x) (hy : 0 ≤ y) (hz : 0 ≤ z) :
    w.clamp (w.clamp (x - y) - z) = w.clamp (x - (y + z)) := by
  have hleast := w.least_eq
  obtain ⟨hlow, hgreatest⟩ := hx
  have hstep : min w.greatest (x - y) = x - y := Int.min_eq_right (by omega)
  have hboth : min w.greatest (x - (y + z)) = x - (y + z) := Int.min_eq_right (by omega)
  have hrest : min w.greatest (max w.least (x - y) - z) = max w.least (x - y) - z :=
    Int.min_eq_right (by omega)
  simp only [clamp]
  rw [hstep, hboth, hrest]
  omega

theorem Resource.sub_right_comm {a b c : Resource} (hb : 0 ≤ b) (hc : 0 ≤ c) :
    a - b - c = a - c - b := by
  apply ext_get
  intro d
  have hword := holds_get a d
  have hbd := get_nonneg hb d
  have hcd := get_nonneg hc d
  rw [get_sub, get_sub, get_sub, get_sub, Word.clamp_clamp_sub hword hbd hcd,
    Word.clamp_clamp_sub hword hcd hbd, Int.add_comm]

/-- Profiles of reservations can be taken away in any order. -/
theorem Reservation.sub_profile_comm {s : Step} {p : Profile} (hp : p.Reduced)
    (r x : Reservation) :
    p - r.profile s - x.profile s = p - x.profile s - r.profile s := by
  apply hp.sub.sub.eq_of_get hp.sub.sub
  intro b
  simp only [Profile.get_sub]
  exact Resource.sub_right_comm profile_nonneg profile_nonneg

/-- From the end of its window on a reservation asks for nothing. -/
theorem Reservation.Valid.get_profile_of_stop_le {s : Step} {r : Reservation} {b : Int}
    (h : r.Valid) (hstop : r.window.stop ≤ b) : (r.profile s).get b = 0 := by
  apply Profile.get_of_not_mem
  intro hmem
  obtain ⟨x, hx, hlt⟩ := Demand.exists_lt_stop_of_mem_ofIntervals hmem
  have hinside := (h.demand hx).2.1.2
  omega

namespace Ledger

variable {l : Ledger} {r x : Reservation} {rs others : List Reservation} {id : ReservationId}
  {ids : List ReservationId} {now later t : Int}

/-! ## Striking in any order -/

theorem terms_strike : (l.strike r).terms = l.terms := rfl

theorem Canonical.strike_comm (h : l.Canonical) (r x : Reservation) :
    (l.strike r).strike x = (l.strike x).strike r := by
  apply (h.strike (r := x)).strike.eq_of_demand (h.strike (r := r)).strike rfl
  · intro id
    rw [get?_strike, get?_strike, get?_strike, get?_strike]
    by_cases hr : r.id = id <;> by_cases hx : x.id = id <;> simp [hr, hx]
  · exact Reservation.sub_profile_comm h.total r x
  · intro user
    rw [userDemand_strike, userDemand_strike, userDemand_strike, userDemand_strike]
    by_cases hr : r.user = user
    · by_cases hx : x.user = user
      · simp only [hr, hx, if_true]
        exact Reservation.sub_profile_comm (h.user user) r x
      · simp [hr, hx, terms_strike]
    · by_cases hx : x.user = user <;> simp [hr, hx, terms_strike]

theorem Canonical.foldl_strike_perm (h : l.Canonical) (hperm : rs.Perm others) :
    rs.foldl Ledger.strike l = others.foldl Ledger.strike l := by
  induction hperm generalizing l with
  | nil => rfl
  | cons r _ ih => exact ih h.strike
  | swap r x rs =>
      rw [List.foldl_cons, List.foldl_cons, List.foldl_cons, List.foldl_cons, h.strike_comm]
  | trans _ _ first second => exact (first h).trans (second h)

/-- The reservations that are found under the identifiers. -/
def found (l : Ledger) (ids : List ReservationId) : List Reservation :=
  ids.filterMap l.get?

theorem found_map_id (hget : ∀ r ∈ rs, l.get? r.id = some r) : l.found (rs.map (·.id)) = rs := by
  unfold found
  rw [List.filterMap_map]
  exact (List.filterMap_congr hget).trans (List.filterMap_some (l := rs))

theorem Keyed.map_id_found (h : l.Keyed) (hget : ∀ id ∈ ids, ∃ r, l.get? id = some r) :
    (l.found ids).map (·.id) = ids := by
  unfold found
  induction ids with
  | nil => rfl
  | cons id ids ih =>
      obtain ⟨⟨r, hr⟩, hrest⟩ := List.forall_mem_cons.1 hget
      rw [List.filterMap_cons_some hr, List.map_cons, h id r hr, ih hrest]

/-- The archive may take out what is past its window in any order. -/
theorem Reachable.run_takeAll_of_perm (h : l.Reachable)
    (hperm : ids.Perm (l.archive now).1) :
    (Procedure.takeAll ids).run l = .ok () (l.archive now).2 := by
  have hget : ∀ r ∈ l.past now, l.get? r.id = some r :=
    fun r hr => (h.keyed.mem_past_iff.1 hr).1
  have hids : (l.found ids).map (·.id) = ids := by
    apply h.keyed.map_id_found
    intro id hid
    obtain ⟨r, hr, rfl⟩ := List.mem_map.1 (hperm.mem_iff.1 hid)
    exact ⟨r, hget r hr⟩
  have hfound : (l.found ids).Perm (l.past now) := by
    rw [← found_map_id hget]
    exact hperm.filterMap _
  have hapart : (l.found ids).Pairwise fun x y => x.id ≠ y.id :=
    (hfound.pairwise_iff Ne.symm).2 (h.keyed.pairwise_past now)
  have hrun := Procedure.run_takeAll hapart fun r hr => hget r (hfound.mem_iff.1 hr)
  rw [hids, h.canonical.foldl_strike_perm hfound] at hrun
  exact hrun

/-! ## What is left of the demands -/

theorem demandAt_strike (hnone : (r.profile l.terms.step).get (l.terms.step.align t) = 0) :
    (l.strike r).demandAt t = l.demandAt t ∧
      ∀ user, (l.strike r).userDemandAt user t = l.userDemandAt user t := by
  have hsub (p : Profile) : (p - r.profile l.terms.step).get (l.terms.step.align t) =
      p.get (l.terms.step.align t) := by
    rw [Profile.get_sub, hnone, Resource.sub_zero]
  refine ⟨hsub l.total, fun user => ?_⟩
  unfold userDemandAt
  rw [userDemand_strike]
  split
  · exact hsub _
  · rfl

theorem demandAt_foldl_strike
    (hnone : ∀ r ∈ rs, (r.profile l.terms.step).get (l.terms.step.align t) = 0) :
    (rs.foldl strike l).demandAt t = l.demandAt t ∧
      ∀ user, (rs.foldl strike l).userDemandAt user t = l.userDemandAt user t := by
  induction rs generalizing l with
  | nil => exact ⟨rfl, fun _ => rfl⟩
  | cons r rs ih =>
      obtain ⟨hhead, hrest⟩ := List.forall_mem_cons.1 hnone
      obtain ⟨htotal, huser⟩ := ih (l := l.strike r) hrest
      obtain ⟨hsame, hown⟩ := demandAt_strike hhead
      exact ⟨htotal.trans hsame, fun user => (huser user).trans (hown user)⟩

/-! ## What is past, and what is past later -/

theorem Reachable.mem_past_iff (h : l.Reachable) :
    r ∈ l.past now ↔ l.get? r.id = some r ∧ r.window.stop ≤ now := by
  rw [h.keyed.mem_past_iff, Reservation.phase_eq_completed_iff]
  apply and_congr_right
  intro hr
  have hwindow : ¬r.window.stop ≤ r.window.start :=
    (Reservation.valid_iff.1 (h.valid_of_get? r.id r hr)).2.1
  omega

theorem Keyed.nodup_past (h : l.Keyed) : (l.past now).Nodup :=
  h.nodup_admitted.filter _

theorem Reachable.mem_archived_iff (h : l.Reachable) :
    id ∈ (l.archive now).1 ↔ ∃ r, l.get? id = some r ∧ r.window.stop ≤ now := by
  rw [archive_eq, List.mem_map]
  constructor
  · rintro ⟨r, hr, rfl⟩
    exact ⟨r, h.mem_past_iff.1 hr⟩
  · rintro ⟨r, hr, hstop⟩
    have hid : r.id = id := h.keyed id r hr
    exact ⟨r, h.mem_past_iff.2 ⟨hid ▸ hr, hstop⟩, hid⟩

theorem get?_archive :
    (l.archive now).2.get? id = if id ∈ (l.archive now).1 then none else l.get? id := by
  rw [archive_eq, get?_foldl_strike]
  simp only [List.mem_map]

theorem Reachable.get?_archive_eq_some_iff (h : l.Reachable) :
    (l.archive now).2.get? id = some r ↔ l.get? id = some r ∧ ¬r.window.stop ≤ now := by
  rw [get?_archive]
  by_cases hid : id ∈ (l.archive now).1
  · obtain ⟨x, hx, hstop⟩ := h.mem_archived_iff.1 hid
    rw [if_pos hid, hx]
    simp only [reduceCtorEq, Option.some.injEq, false_iff, not_and, not_not]
    rintro rfl
    exact hstop
  · rw [if_neg hid, iff_self_and]
    intro hr hstop
    exact hid (h.mem_archived_iff.2 ⟨r, hr, hstop⟩)

theorem Reachable.archive_snd (h : l.Reachable) : (l.archive now).2.Reachable :=
  h.step (.archive now)

/-- What is past later is what is past now and what of the rest is past later. -/
theorem Reachable.past_perm (h : l.Reachable) (hlater : now ≤ later) :
    (l.past now ++ (l.archive now).2.past later).Perm (l.past later) := by
  have hrest : ∀ r, r ∈ (l.archive now).2.past later ↔
      (l.get? r.id = some r ∧ ¬r.window.stop ≤ now) ∧ r.window.stop ≤ later := by
    intro r
    rw [h.archive_snd.mem_past_iff, h.get?_archive_eq_some_iff]
  have hdisjoint : (l.past now).Disjoint ((l.archive now).2.past later) := by
    intro r hr hleft
    exact ((hrest r).1 hleft).1.2 (h.mem_past_iff.1 hr).2
  have hnodup : (l.past now ++ (l.archive now).2.past later).Nodup :=
    h.keyed.nodup_past.append h.archive_snd.keyed.nodup_past hdisjoint
  rw [List.perm_ext_iff_of_nodup hnodup h.keyed.nodup_past]
  intro r
  rw [List.mem_append, hrest, h.mem_past_iff, h.mem_past_iff]
  by_cases hstop : r.window.stop ≤ now
  · have hstop' : r.window.stop ≤ later := by omega
    simp [hstop, hstop']
  · simp [hstop]

/-- Archiving twice is archiving once at the later time. -/
theorem Reachable.archive_archive (h : l.Reachable) (hlater : now ≤ later) :
    ((l.archive now).2.archive later).2 = (l.archive later).2 := by
  have hperm := h.canonical.foldl_strike_perm (h.past_perm hlater)
  rw [List.foldl_append] at hperm
  exact hperm

theorem Reachable.archive_earlier (h : l.Reachable) {earlier : Int} (hearlier : earlier ≤ now) :
    ((l.archive now).2.archive earlier).1 = [] := by
  apply List.eq_nil_iff_forall_not_mem.2
  intro id hid
  obtain ⟨r, hr, hstop⟩ := h.archive_snd.mem_archived_iff.1 hid
  have hkept := (h.get?_archive_eq_some_iff.1 hr).2
  omega

theorem Reachable.demandAt_archive (h : l.Reachable) (ht : now ≤ l.terms.step.align t) :
    (l.archive now).2.demandAt t = l.demandAt t ∧
      ∀ user, (l.archive now).2.userDemandAt user t = l.userDemandAt user t := by
  apply demandAt_foldl_strike
  intro r hr
  obtain ⟨hget, hstop⟩ := h.mem_past_iff.1 hr
  exact (h.valid_of_get? r.id r hget).get_profile_of_stop_le (by omega)

theorem Keyed.nodup_archived (h : l.Keyed) : (l.archive now).1.Nodup := by
  rw [archive_eq, List.Nodup, List.pairwise_map]
  exact h.pairwise_past now

/-- **Archiving takes exactly the past.** The reservations whose windows have ended are returned
once, all others stay, and so do the demands in buckets to come. -/
theorem archive_takes_past (h : l.Reachable) (now : Int) :
    (l.archive now).1.Nodup ∧
    (∀ id, id ∈ (l.archive now).1 ↔ ∃ r, l.get? id = some r ∧ r.window.stop ≤ now) ∧
    (∀ id, (l.archive now).2.get? id = if id ∈ (l.archive now).1 then none else l.get? id) ∧
    (∀ t, now ≤ l.terms.step.align t → (l.archive now).2.demandAt t = l.demandAt t ∧
      ∀ user, (l.archive now).2.userDemandAt user t = l.userDemandAt user t) ∧
    (∀ earlier ≤ now, ((l.archive now).2.archive earlier).1 = []) ∧
    (∀ ids, ids.Perm (l.archive now).1 →
      (Procedure.takeAll ids).run l = .ok () (l.archive now).2) ∧
    ∀ later, now ≤ later → ((l.archive now).2.archive later).2 = (l.archive later).2 :=
  ⟨h.keyed.nodup_archived, fun _ => h.mem_archived_iff, fun _ => get?_archive,
    fun _ => h.demandAt_archive, fun _ => h.archive_earlier, fun _ => h.run_takeAll_of_perm,
    fun _ => h.archive_archive⟩

namespace Sample

/-- Its window ends in the middle of a bucket. -/
def trailing : Reservation :=
  ⟨⟨4⟩, "u2", "dedicated", ⟨0, 25⟩, .ofList [(⟨5, 25⟩, .ofAmounts 0 1 0)]⟩

def trailed : Ledger :=
  ledger.apply (.add trailing)

end Sample

/-- Archived in the middle of its last bucket, `trailing` no longer counts in the rest of it; from
the next bucket on nothing has changed. -/
theorem sample_archive_takes_past :
    Sample.trailed.Reachable ∧ (Sample.trailed.archive 26).1 = [⟨4⟩] ∧
      (Sample.trailed.archive 26).2.get? ⟨1⟩ = some Sample.misaligned ∧
      (Sample.trailed.demandAt 29).get .cpu = 4 ∧
      ((Sample.trailed.archive 26).2.demandAt 29).get .cpu = 3 ∧
      (Sample.trailed.archive 26).2.demandAt 30 = Sample.trailed.demandAt 30 ∧
      ((Sample.trailed.archive 26).2.archive 26).1 = [] ∧
      ((Sample.trailed.archive 26).2.archive 30).2 = (Sample.trailed.archive 30).2 := by
  have hreach : Sample.trailed.Reachable := Sample.reachable_ledger.step _
  have hids : (Sample.trailed.archive 26).1 = [⟨4⟩] := by decide +kernel
  obtain ⟨_, _, hget, hdemand, hagain, _, htwice⟩ := archive_takes_past hreach 26
  refine ⟨hreach, hids, ?_, by decide +kernel, by decide +kernel,
    (hdemand 30 (by decide +kernel)).1, hagain 26 (by decide), htwice 30 (by decide)⟩
  rw [hget, hids]
  rfl

end Ledger

end Allotment
