import Mathlib.Tactic.Tauto
import Allotment.Proofs.Demand.Load

/-!
# The sweep

A sweep walks the changes of demand in time order and raises the buckets of each stretch between two
changes to the level of the stretch. Two facts describe it: a bucket keeps the least upper bound of
the levels that the sweep passes in it, and a bucket is stored if one of these levels is not zero.
Levels are followed from one instant to the next rather than from one change to the next, so that
they can be compared with loads. Both facts need the instants of the changes to be aligned within
the word; whatever they are, raising lowers no bucket, and stores none behind the last change.
-/

namespace Allotment.Demand

open Profile.ofIntervals (changes sweep)

variable {demands : List (Interval × Resource)} {events : List (Int × Resource)}
  {level : Resource} {p : Profile} {d : Dimension} {s : Step} {t b : Int}

/-! ## Levels between changes -/

/-- The level of demand once every change up to `t` has been made. -/
def levelAt (level : Resource) (events : List (Int × Resource)) (t : Int) : Resource :=
  (events.filter fun x => x.1 ≤ t).foldl (fun level x => level + x.2) level

/-- The instant lies between the first change and the last. -/
def Spans (events : List (Int × Resource)) (t : Int) : Prop :=
  (∃ x ∈ events, x.1 ≤ t) ∧ ∃ x ∈ events, t < x.1

theorem levelAt_cons_of_le {x : Int × Resource} (h : x.1 ≤ t) :
    levelAt level (x :: events) t = levelAt (level + x.2) events t := by
  simp [levelAt, h]

theorem levelAt_of_forall_lt (h : ∀ x ∈ events, t < x.1) : levelAt level events t = level := by
  have hnil : events.filter (fun x => decide (x.1 ≤ t)) = [] := by
    apply List.filter_eq_nil_iff.2
    intro x hx
    have := h x hx
    simp only [decide_eq_true_eq]
    omega
  simp [levelAt, hnil]

/-- The instants spanned by a sweep are those of its first stretch and those of the rest. -/
theorem forall_spans_cons_cons {change change' : Resource} {u : Int} {i : Interval}
    {Q : Resource → Prop}
    (hsorted : ((t, change) :: (u, change') :: events).Pairwise fun x y => x.1 < y.1) :
    (∀ v ∈ i, Spans ((t, change) :: (u, change') :: events) v →
        Q (levelAt level ((t, change) :: (u, change') :: events) v)) ↔
      ((∃ v ∈ i, v ∈ (⟨t, u⟩ : Interval)) → Q (level + change)) ∧
      ∀ v ∈ i, Spans ((u, change') :: events) v →
        Q (levelAt (level + change) ((u, change') :: events) v) := by
  obtain ⟨hhead, hrest⟩ := List.pairwise_cons.1 hsorted
  have htu : t < u := hhead (u, change') List.mem_cons_self
  have hafter : ∀ x ∈ (u, change') :: events, u ≤ x.1 := by
    intro x hx
    rcases List.mem_cons.1 hx with rfl | hx
    · exact Int.le_refl u
    · exact Int.le_of_lt ((List.pairwise_cons.1 hrest).1 x hx)
  constructor
  · intro h
    constructor
    · rintro ⟨v, hv, htv, hvu⟩
      have hlevel : levelAt level ((t, change) :: (u, change') :: events) v = level + change := by
        rw [levelAt_cons_of_le htv]
        exact levelAt_of_forall_lt fun x hx => Int.lt_of_lt_of_le hvu (hafter x hx)
      rw [← hlevel]
      exact h v hv ⟨⟨_, List.mem_cons_self, htv⟩, _, List.mem_cons_of_mem _ List.mem_cons_self, hvu⟩
    · rintro v hv ⟨⟨x, hx, hxv⟩, y, hy, hvy⟩
      have htv : t ≤ v := by
        have := hafter x hx
        omega
      rw [← levelAt_cons_of_le (x := (t, change)) htv]
      exact h v hv ⟨⟨_, List.mem_cons_self, htv⟩, y, List.mem_cons_of_mem _ hy, hvy⟩
  · rintro ⟨hfirst, hlater⟩ v hv ⟨⟨x, hx, hxv⟩, y, hy, hvy⟩
    have htv : t ≤ v := by
      rcases List.mem_cons.1 hx with rfl | hx
      · exact hxv
      · have := hafter x hx
        omega
    rw [levelAt_cons_of_le htv]
    by_cases hvu : v < u
    · rw [levelAt_of_forall_lt fun x hx => Int.lt_of_lt_of_le hvu (hafter x hx)]
      exact hfirst ⟨v, hv, htv, hvu⟩
    · refine hlater v hv ⟨⟨_, List.mem_cons_self, Int.not_lt.1 hvu⟩, y, ?_, hvy⟩
      rcases List.mem_cons.1 hy with rfl | hy
      · exact absurd htv (Int.not_le.2 hvy)
      · exact hy

/-! ## What a sweep leaves in a bucket -/

theorem get_foldl_raise_le_iff {l : List Int} {x : Int} :
    ((l.foldl (fun p b => ⟨p.points.insert b ((p.get b).sup level)⟩) p : Profile).get b).get d ≤ x ↔
      (p.get b).get d ≤ x ∧ (b ∈ l → level.get d ≤ x) := by
  induction l generalizing p with
  | nil => simp
  | cons c l ih =>
      rw [List.foldl_cons, ih, List.mem_cons]
      by_cases hc : c = b
      · subst hc
        have hget : (Profile.get ⟨p.points.insert c ((p.get c).sup level)⟩ c) =
            (p.get c).sup level := by
          simp [Profile.get]
        rw [hget, Resource.get_sup, Int.max_le]
        tauto
      · have hget : Profile.get ⟨p.points.insert c ((p.get c).sup level)⟩ b = p.get b := by
          simp [Profile.get, Std.ExtTreeMap.getD_insert, hc]
        rw [hget, or_iff_right (Ne.symm hc)]

theorem mem_foldl_raise_iff {l : List Int} :
    b ∈ (l.foldl (fun p b => ⟨p.points.insert b ((p.get b).sup level)⟩) p : Profile).points ↔
      b ∈ p.points ∨ b ∈ l := by
  induction l generalizing p with
  | nil => simp
  | cons c l ih =>
      rw [List.foldl_cons, ih, Std.ExtTreeMap.mem_insert, Std.LawfulEqCmp.compare_eq_iff_eq,
        List.mem_cons, eq_comm]
      tauto

/-- Raising the buckets of a stretch bounds the level of each bucket that the stretch meets. -/
theorem get_raise_le_iff {i : Interval} {x : Int} (hi : i.start < i.stop)
    (halign : s.Aligns i.start) (hb : s.ms ∣ b) :
    ((p.raise s i level).get b).get d ≤ x ↔
      (p.get b).get d ≤ x ∧ ((∃ t ∈ s.bucket b, t ∈ i) → level.get d ≤ x) := by
  unfold Profile.raise
  rw [get_foldl_raise_le_iff, Step.mem_buckets hi halign, and_iff_right hb]

theorem mem_raise_iff {i : Interval} (hi : i.start < i.stop) (halign : s.Aligns i.start) :
    b ∈ (p.raise s i level).points ↔
      b ∈ p.points ∨ s.ms ∣ b ∧ ∃ t ∈ s.bucket b, t ∈ i := by
  unfold Profile.raise
  rw [mem_foldl_raise_iff, Step.mem_buckets hi halign]

theorem get_le_get_raise {i : Interval} : (p.get b).get d ≤ ((p.raise s i level).get b).get d :=
  (get_foldl_raise_le_iff.1 (Int.le_refl _)).1

theorem mem_or_lt_of_mem_raise {i : Interval} (h : b ∈ (p.raise s i level).points) :
    b ∈ p.points ∨ b < i.stop :=
  (mem_foldl_raise_iff.1 h).imp_right Step.lt_stop_of_mem_buckets

/-- A sweep keeps what raising up to one of its changes keeps. -/
theorem sweep_of_raise {P : Profile → Prop}
    (hraise : ∀ p level (i : Interval), (∃ x ∈ events, x.1 = i.stop) → P p →
      P (p.raise s i level)) (h : P p) : P (sweep s level events p) := by
  induction events generalizing level p with
  | nil => exact h
  | cons e events ih =>
      obtain ⟨t, change⟩ := e
      cases events with
      | nil => exact h
      | cons e' events =>
          obtain ⟨u, change'⟩ := e'
          unfold sweep
          apply ih
          · rintro p level i ⟨x, hx, hstop⟩
            exact hraise p level i ⟨x, List.mem_cons_of_mem _ hx, hstop⟩
          · split
            · exact h
            · exact hraise p _ ⟨t, u⟩ ⟨_, List.mem_cons_of_mem _ List.mem_cons_self, rfl⟩ h

theorem get_le_get_sweep : (p.get b).get d ≤ ((sweep s level events p).get b).get d :=
  sweep_of_raise (P := fun q => (p.get b).get d ≤ (q.get b).get d)
    (fun _ _ _ _ hle => Int.le_trans hle get_le_get_raise) (Int.le_refl _)

theorem mem_or_lt_of_mem_sweep (h : b ∈ (sweep s level events p).points) :
    b ∈ p.points ∨ ∃ x ∈ events, b < x.1 := by
  refine sweep_of_raise (P := fun q => b ∈ q.points → b ∈ p.points ∨ ∃ x ∈ events, b < x.1)
    ?_ Or.inl h
  rintro q level i ⟨x, hx, hstop⟩ hq hmem
  rcases mem_or_lt_of_mem_raise hmem with hmem | hlt
  · exact hq hmem
  · exact .inr ⟨x, hx, hstop ▸ hlt⟩

/-- A profile after a sweep has the property `P` if it had it before and every level that the sweep
passes in the bucket has the property `Q`, provided that this is so of each stretch. -/
theorem sweep_iff {P : Profile → Prop} {Q : Resource → Prop}
    (hstretch : ∀ p level (i : Interval), i.start < i.stop → s.Aligns i.start →
      (P (if level = 0 then p else p.raise s i level) ↔
        P p ∧ ((∃ t ∈ s.bucket b, t ∈ i) → Q level)))
    (hsorted : events.Pairwise fun x y => x.1 < y.1) (haligns : ∀ x ∈ events, s.Aligns x.1) :
    P (sweep s level events p) ↔
      P p ∧ ∀ t ∈ s.bucket b, Spans events t → Q (levelAt level events t) := by
  induction events generalizing level p with
  | nil => simp [sweep, Spans]
  | cons e events ih =>
      obtain ⟨t, change⟩ := e
      cases events with
      | nil =>
          simp only [sweep, Spans, List.mem_singleton, exists_eq_left]
          constructor
          · intro h
            exact ⟨h, fun v _ hv => absurd hv.1 (Int.not_le.2 hv.2)⟩
          · exact And.left
      | cons e' events =>
          obtain ⟨u, change'⟩ := e'
          obtain ⟨hhead, hrest⟩ := List.pairwise_cons.1 hsorted
          obtain ⟨halign, haligns⟩ := List.forall_mem_cons.1 haligns
          have htu : t < u := hhead (u, change') List.mem_cons_self
          unfold sweep
          rw [ih hrest haligns, hstretch _ _ ⟨t, u⟩ htu halign, forall_spans_cons_cons hsorted,
            and_assoc]

/-- A sweep leaves in a bucket the least upper bound of the levels that it passes there. -/
theorem get_sweep_le_iff {x : Int} (hsorted : events.Pairwise fun x y => x.1 < y.1)
    (haligns : ∀ x ∈ events, s.Aligns x.1) (hb : s.ms ∣ b) :
    ((sweep s level events p).get b).get d ≤ x ↔
      (p.get b).get d ≤ x ∧ ∀ t ∈ s.bucket b, Spans events t →
        levelAt level events t ≠ 0 → (levelAt level events t).get d ≤ x := by
  refine sweep_iff (P := fun p => (p.get b).get d ≤ x) (Q := fun r => r ≠ 0 → r.get d ≤ x)
    ?_ hsorted haligns
  intro p level i hi halign
  by_cases hzero : level = 0
  · simp [hzero]
  · rw [if_neg hzero, get_raise_le_iff hi halign hb, imp_iff_right hzero]

/-- A sweep stores the buckets in which it passes a level other than zero. -/
theorem not_mem_sweep_iff (hsorted : events.Pairwise fun x y => x.1 < y.1)
    (haligns : ∀ x ∈ events, s.Aligns x.1) :
    b ∉ (sweep s level events p).points ↔
      b ∉ p.points ∧
      ∀ t ∈ s.bucket b, Spans events t → s.ms ∣ b → levelAt level events t = 0 := by
  refine sweep_iff (P := fun p => b ∉ p.points) (Q := fun r => s.ms ∣ b → r = 0)
    ?_ hsorted haligns
  intro p level i hi halign
  by_cases hzero : level = 0
  · simp [hzero]
  · rw [if_neg hzero, mem_raise_iff hi halign]
    simp only [hzero, imp_false, not_or, not_and]
    rw [imp_not_comm]

/-! ## From one instant to the next -/

theorem levelAt_of_forall_ne (h : ∀ x ∈ events, x.1 ≠ t) :
    levelAt level events t = levelAt level events (t - 1) := by
  unfold levelAt
  congr 1
  apply List.filter_congr
  intro x hx
  have := h x hx
  simp only [decide_eq_decide]
  omega

theorem levelAt_of_mem {change : Resource} (hsorted : events.Pairwise fun x y => x.1 < y.1)
    (h : (t, change) ∈ events) :
    levelAt level events t = levelAt level events (t - 1) + change := by
  induction events generalizing level with
  | nil => simp at h
  | cons x events ih =>
      obtain ⟨hhead, hrest⟩ := List.pairwise_cons.1 hsorted
      rcases List.mem_cons.1 h with rfl | h
      · have hnow : levelAt level ((t, change) :: events) t = level + change := by
          rw [levelAt_cons_of_le (Int.le_refl t)]
          exact levelAt_of_forall_lt hhead
        have hpred : levelAt level ((t, change) :: events) (t - 1) = level := by
          apply levelAt_of_forall_lt
          intro y hy
          rcases List.mem_cons.1 hy with rfl | hy
          · exact Int.sub_one_lt_of_le (Int.le_refl t)
          · have := hhead y hy
            simp only at this
            omega
        rw [hnow, hpred]
      · have hx : x.1 < t := hhead _ h
        rw [levelAt_cons_of_le (by omega), levelAt_cons_of_le (by omega), ih hrest h]

theorem pairwise_toList (m : Std.ExtTreeMap Int Resource) :
    m.toList.Pairwise fun x y => x.1 < y.1 := by
  apply (Std.ExtTreeMap.ordered_keys_toList (t := m)).imp
  intro x y h
  exact Int.compare_eq_lt.1 h

theorem levelAt_eq_levelAt_pred (m : Std.ExtTreeMap Int Resource) :
    levelAt level m.toList t = levelAt level m.toList (t - 1) + m.getD t 0 := by
  cases h : m[t]? with
  | none =>
      rw [Std.ExtTreeMap.getD_eq_getD_getElem?, h, Option.getD_none, Resource.add_zero]
      apply levelAt_of_forall_ne
      rintro ⟨u, change⟩ hx rfl
      rw [Std.ExtTreeMap.mem_toList_iff_getElem?_eq_some, h] at hx
      simp at hx
  | some change =>
      rw [Std.ExtTreeMap.getD_eq_getD_getElem?, h, Option.getD_some]
      exact levelAt_of_mem (pairwise_toList m) (Std.ExtTreeMap.mem_toList_iff_getElem?_eq_some.2 h)

end Allotment.Demand
