import Mathlib.Data.Int.LeastGreatest
import Allotment.Proofs.Demand.Canonical
import Allotment.Proofs.Demand.Sweep

/-!
# Sampling

The profile of a list of demands against their loads. The level of the sweep at an instant is the
load there as long as no earlier load was too great for the word. So the profile tells the peak of
every bucket up to and including the first one that passes the word, where it tells the greatest
amount; and if all loads fit, it tells every peak. After a load that has passed the word the level
may fall behind the load, but it never gets above it. All of this needs the demands to be in time:
if one of them begins in a bucket that starts below the word, the buckets are not where they should
be.

Words are followed one dimension at a time. Collecting a change can lose arrivals, but only if they
are too many for the word, and then the level is lifted to the bound of the word all the same.
-/

namespace Allotment.Demand

open Profile.ofIntervals (changes sweep)

variable {demands : List (Interval × Resource)} {p : Profile} {d : Dimension} {s : Step} {t b : Int}

/-! ## The changes of a list of demands -/

/-- The changes once one more demand has been collected. -/
theorem changes_append_singleton {x : Interval × Resource} :
    changes (demands ++ [x]) =
      if x.1.IsEmpty ∨ x.2 = 0 then changes demands
      else
        let m := (changes demands).insert x.1.start ((changes demands).getD x.1.start 0 + x.2)
        m.insert x.1.stop (m.getD x.1.stop 0 - x.2) := by
  simp [changes, List.foldl_append]

theorem amount_append {test : Interval → Bool} {others : List (Interval × Resource)} :
    amount (demands ++ others) d test = amount demands d test + amount others d test := by
  simp [amount]

/-- Changes are made where a demand begins or ceases. -/
theorem mem_changes_iff :
    t ∈ changes demands ↔
      ∃ x ∈ demands, ¬x.1.IsEmpty ∧ x.2 ≠ 0 ∧ (x.1.start = t ∨ x.1.stop = t) := by
  induction demands using List.reverseRecOn with
  | nil => simp [changes]
  | append_singleton demands x ih =>
      rw [changes_append_singleton]
      by_cases hx : x.1.IsEmpty ∨ x.2 = 0
      · rw [if_pos hx, ih]
        simp only [List.mem_append, List.mem_singleton]
        constructor
        · rintro ⟨y, hy, h⟩
          exact ⟨y, .inl hy, h⟩
        · rintro ⟨y, hy | rfl, hempty, hzero, h⟩
          · exact ⟨y, hy, hempty, hzero, h⟩
          · exact absurd hx (by simp [hempty, hzero])
      · rw [if_neg hx]
        simp only [Std.ExtTreeMap.mem_insert, Std.LawfulEqCmp.compare_eq_iff_eq, ih,
          List.mem_append, List.mem_singleton]
        constructor
        · rintro (h | h | ⟨y, hy, h⟩)
          · exact ⟨x, .inr rfl, fun h => hx (.inl h), fun h => hx (.inr h), .inr h⟩
          · exact ⟨x, .inr rfl, fun h => hx (.inl h), fun h => hx (.inr h), .inl h⟩
          · exact ⟨y, .inl hy, h⟩
        · rintro ⟨y, hy | rfl, hempty, hzero, h⟩
          · exact .inr (.inr ⟨y, hy, hempty, hzero, h⟩)
          · rcases h with h | h
            · exact .inr (.inl h)
            · exact .inl h

theorem arriving_append_singleton {x : Interval × Resource} :
    arriving (demands ++ [x]) d t = arriving demands d t +
      if ¬x.1.IsEmpty ∧ x.1.start = t then x.2.get d else 0 := by
  simp only [arriving, amount_append, amount_cons, amount_nil, Int.add_zero, decide_eq_true_eq]

theorem leaving_append_singleton {x : Interval × Resource} :
    leaving (demands ++ [x]) d t = leaving demands d t +
      if ¬x.1.IsEmpty ∧ x.1.stop = t then x.2.get d else 0 := by
  simp only [leaving, amount_append, amount_cons, amount_nil, Int.add_zero, decide_eq_true_eq]

theorem load_append_singleton {x : Interval × Resource} :
    load (demands ++ [x]) d t = load demands d t + if t ∈ x.1 then x.2.get d else 0 := by
  simp only [load, amount_append, amount_cons, amount_nil, Int.add_zero, decide_eq_true_eq]

/-- One more demand takes from the change where it ceases and adds to it where it begins. -/
theorem getD_changes_append_singleton {x : Interval × Resource} :
    (changes (demands ++ [x])).getD t 0 =
      if ¬x.1.IsEmpty ∧ x.1.stop = t then (changes demands).getD t 0 - x.2
      else if ¬x.1.IsEmpty ∧ x.1.start = t then (changes demands).getD t 0 + x.2
      else (changes demands).getD t 0 := by
  rw [changes_append_singleton]
  by_cases hskip : x.1.IsEmpty ∨ x.2 = 0
  · rw [if_pos hskip]
    rcases hskip with h | h
    · simp [h]
    · simp [h]
  · rw [if_neg hskip]
    rw [not_or] at hskip
    have hne : x.1.start ≠ x.1.stop := by
      have := hskip.1
      unfold Interval.IsEmpty at this
      omega
    by_cases hstop : x.1.stop = t
    · subst hstop
      simp [hskip.1, hne, Std.ExtTreeMap.getD_insert]
    · by_cases hstart : x.1.start = t
      · subst hstart
        simp [hskip.1, hstop, Std.ExtTreeMap.getD_insert]
      · simp [hstart, hstop, Std.ExtTreeMap.getD_insert]

/-- What holds of no change, and is kept by an amount that begins and by one that ceases, holds of
every collected change along with what begins and what ceases in all. -/
theorem changes_induction {P : Int → Int → Int → Prop} (hnonneg : ∀ x ∈ demands, 0 ≤ x.2)
    (hzero : P 0 0 0)
    (hbegin : ∀ {change begun ceased x}, 0 ≤ begun → 0 ≤ ceased → 0 ≤ x → P change begun ceased →
      P (d.word.clamp (change + x)) (begun + x) ceased)
    (hcease : ∀ {change begun ceased x}, 0 ≤ begun → 0 ≤ ceased → 0 ≤ x → P change begun ceased →
      P (d.word.clamp (change - x)) begun (ceased + x)) :
    P (((changes demands).getD t 0).get d) (arriving demands d t) (leaving demands d t) := by
  induction demands using List.reverseRecOn with
  | nil => simpa [changes, arriving, leaving] using hzero
  | append_singleton demands x ih =>
      have hx : 0 ≤ x.2.get d := Resource.get_nonneg (hnonneg x (by simp)) d
      have hnonneg : ∀ y ∈ demands, 0 ≤ y.2 := fun y hy => hnonneg y (by simp [hy])
      have hbegun : 0 ≤ arriving demands d t := amount_nonneg hnonneg
      have hceased : 0 ≤ leaving demands d t := amount_nonneg hnonneg
      have ih := ih hnonneg
      rw [getD_changes_append_singleton, arriving_append_singleton, leaving_append_singleton]
      by_cases hstop : ¬x.1.IsEmpty ∧ x.1.stop = t
      · have hstart : ¬(¬x.1.IsEmpty ∧ x.1.start = t) := by
          unfold Interval.IsEmpty at hstop ⊢
          omega
        simpa only [if_pos hstop, if_neg hstart, Resource.get_sub, Int.add_zero] using
          hcease hbegun hceased hx ih
      · by_cases hstart : ¬x.1.IsEmpty ∧ x.1.start = t
        · simpa only [if_neg hstop, if_pos hstart, Resource.get_add, Int.add_zero] using
            hbegin hbegun hceased hx ih
        · simpa only [if_neg hstop, if_neg hstart, Int.add_zero] using ih

/-- A collected change is exact, or arrivals were lost above the greatest amount of the word. -/
theorem get_changes_bounds (hnonneg : ∀ x ∈ demands, 0 ≤ x.2)
    (hleave : leaving demands d t ≤ d.word.greatest) :
    min (arriving demands d t) d.word.greatest - leaving demands d t ≤
        ((changes demands).getD t 0).get d ∧
      ((changes demands).getD t 0).get d ≤ arriving demands d t - leaving demands d t := by
  have hleast := d.word.least_eq
  have hgreatest := d.word.greatest_pos
  refine changes_induction (P := fun change begun ceased => ceased ≤ d.word.greatest →
    min begun d.word.greatest - ceased ≤ change ∧ change ≤ begun - ceased) hnonneg ?_ ?_ ?_ hleave
  · omega
  · intro change begun ceased x _ _ _ h hle
    have h := h hle
    simp only [Word.clamp]
    omega
  · intro change begun ceased x _ _ _ h hle
    have h := h (by omega)
    simp only [Word.clamp]
    omega

/-- Whatever was cut off, a change is at most what begins less what ceases, where no more counts as
ceasing than takes a word from zero to its least amount. -/
theorem get_changes_le (hnonneg : ∀ x ∈ demands, 0 ≤ x.2) :
    ((changes demands).getD t 0).get d ≤
      arriving demands d t - min (leaving demands d t) (d.word.greatest + 1) := by
  have hleast := d.word.least_eq
  have hgreatest := d.word.greatest_pos
  refine changes_induction (P := fun change begun ceased =>
    change ≤ begun - min ceased (d.word.greatest + 1)) hnonneg ?_ ?_ ?_
  · omega
  · intro change begun ceased x _ _ _ h
    simp only [Word.clamp]
    omega
  · intro change begun ceased x _ _ _ h
    simp only [Word.clamp]
    omega

/-! ## Levels are loads -/

theorem exists_of_mem_toList_changes {x : Int × Resource} (h : x ∈ (changes demands).toList) :
    ∃ y ∈ demands, ¬y.1.IsEmpty ∧ y.2 ≠ 0 ∧ (y.1.start = x.1 ∨ y.1.stop = x.1) := by
  apply mem_changes_iff.1
  apply Std.ExtTreeMap.mem_iff_isSome_getElem?.2
  rw [Std.ExtTreeMap.mem_toList_iff_getElem?_eq_some.1 h]
  rfl

/-- Before anything has begun the level is zero. -/
theorem levelAt_changes_of_forall_lt (h : ∀ x ∈ demands, t < x.1.start) :
    levelAt 0 (changes demands).toList t = 0 := by
  apply levelAt_of_forall_lt
  intro x hx
  obtain ⟨y, hy, hempty, _, hat⟩ := exists_of_mem_toList_changes hx
  have := h y hy
  unfold Interval.IsEmpty at hempty
  omega

theorem load_of_forall_lt (h : ∀ x ∈ demands, t < x.1.start) : load demands d t = 0 := by
  by_contra hne
  obtain ⟨y, hy, _, hmem⟩ := exists_of_load_ne_zero hne
  exact absurd hmem.1 (Int.not_le.2 (h y hy))

/-- What holds before anything has begun, and is handed on from one instant to the next, holds at
every instant. -/
theorem instants_induction {P : Int → Prop} (demands : List (Interval × Resource))
    (before : ∀ t, (∀ x ∈ demands, t < x.1.start) → P t) (next : ∀ t, P (t - 1) → P t) (t : Int) :
    P t := by
  obtain ⟨m, hm⟩ := exists_le_start demands
  obtain ⟨n, hn⟩ : ∃ n : Nat, t < m + n := ⟨(t - m + 1).toNat, by omega⟩
  induction n generalizing t with
  | zero =>
      apply before
      intro x hx
      have := hm x hx
      omega
  | succ n ih => exact next t (ih (t - 1) (by omega))

/-- A change that lost arrivals above the word was made up for by the word's own bound. -/
theorem clamp_load_pred_add {change : Int}
    (hleave : leaving demands d t ≤ load demands d (t - 1))
    (hbounds : min (arriving demands d t) d.word.greatest - leaving demands d t ≤ change ∧
      change ≤ arriving demands d t - leaving demands d t) :
    d.word.clamp (load demands d (t - 1) + change) = d.word.clamp (load demands d t) := by
  obtain ⟨hlow, hhigh⟩ := hbounds
  rw [load_eq_load_pred (t := t)]
  simp only [Word.clamp]
  omega

/-- As long as no load has passed the word, the level is the load. -/
theorem get_levelAt_changes (hnonneg : ∀ x ∈ demands, 0 ≤ x.2)
    (hbefore : ∀ u < t, load demands d u ≤ d.word.greatest) :
    (levelAt 0 (changes demands).toList t).get d = d.word.clamp (load demands d t) := by
  induction t using instants_induction demands with
  | before t hnone =>
      rw [levelAt_changes_of_forall_lt hnone, load_of_forall_lt hnone, Resource.get_zero,
        Word.clamp_eq_self Word.holds_zero]
  | next t ih =>
      have hpred : 0 ≤ load demands d (t - 1) := load_nonneg hnonneg
      have hle : load demands d (t - 1) ≤ d.word.greatest := hbefore (t - 1) (by omega)
      have hleave := leaving_le_load_pred (d := d) (t := t) hnonneg
      have hholds : d.word.Holds (load demands d (t - 1)) := by
        have := d.word.least_eq
        have := d.word.greatest_pos
        unfold Word.Holds
        omega
      rw [levelAt_eq_levelAt_pred, Resource.get_add, ih fun u hu => hbefore u (by omega),
        Word.clamp_eq_self hholds]
      exact clamp_load_pred_add hleave (get_changes_bounds hnonneg (Int.le_trans hleave hle))

/-- However much has passed the word, the level never gets above the load. -/
theorem get_levelAt_changes_le (hnonneg : ∀ x ∈ demands, 0 ≤ x.2) :
    (levelAt 0 (changes demands).toList t).get d ≤ load demands d t := by
  induction t using instants_induction demands with
  | before t hnone =>
      rw [levelAt_changes_of_forall_lt hnone, load_of_forall_lt hnone, Resource.get_zero]
  | next t ih =>
      have hchange := get_changes_le (d := d) (t := t) hnonneg
      have hleave := leaving_le_load_pred (d := d) (t := t) hnonneg
      have hload : 0 ≤ load demands d t := load_nonneg hnonneg
      have hbegun : 0 ≤ arriving demands d t := amount_nonneg hnonneg
      have hword := (Resource.holds_get (levelAt 0 (changes demands).toList (t - 1)) d).2
      have hleast := d.word.least_eq
      have hgreatest := d.word.greatest_pos
      rw [levelAt_eq_levelAt_pred, Resource.get_add]
      rw [load_eq_load_pred] at hload ⊢
      simp only [Word.clamp]
      omega

/-! ## Profiles of intervals -/

theorem ofIntervals_eq_sweep :
    Profile.ofIntervals s demands = sweep s 0 (changes demands).toList ∅ :=
  rfl

/-- No amount is below zero, whether the demands are in time or not. -/
theorem get_ofIntervals_nonneg : 0 ≤ ((Profile.ofIntervals s demands).get b).get d := by
  have h : ((∅ : Profile).get b).get d ≤ ((Profile.ofIntervals s demands).get b).get d :=
    get_le_get_sweep
  rwa [Profile.get_empty, Resource.get_zero] at h

/-- Nothing is stored once all demands have ceased. -/
theorem exists_lt_stop_of_mem_ofIntervals (h : b ∈ (Profile.ofIntervals s demands).points) :
    ∃ x ∈ demands, b < x.1.stop := by
  rw [ofIntervals_eq_sweep] at h
  rcases mem_or_lt_of_mem_sweep h with hmem | ⟨e, he, hlt⟩
  · exact absurd hmem Std.ExtTreeMap.not_mem_empty
  · obtain ⟨x, hx, hempty, _, hat⟩ := exists_of_mem_toList_changes he
    unfold Interval.IsEmpty at hempty
    exact ⟨x, hx, by omega⟩

theorem spans_changes_of_mem {x : Interval × Resource} (hx : x ∈ demands) (hzero : x.2 ≠ 0)
    (ht : t ∈ x.1) : Spans (changes demands).toList t := by
  have hempty : ¬x.1.IsEmpty := fun h => Interval.isEmpty_iff.1 h t ht
  have hchange : ∀ u, u = x.1.start ∨ u = x.1.stop → ∃ y ∈ (changes demands).toList, y.1 = u := by
    intro u hu
    have hmem : u ∈ changes demands :=
      mem_changes_iff.2 ⟨x, hx, hempty, hzero, by simpa only [eq_comm] using hu⟩
    exact ⟨(u, (changes demands)[u]), Std.ExtTreeMap.mem_toList_iff_getElem?_eq_some.2
      (Std.ExtTreeMap.getElem?_eq_some_getElem hmem), rfl⟩
  obtain ⟨first, hfirst, hstart⟩ := hchange x.1.start (.inl rfl)
  obtain ⟨last, hlast, hstop⟩ := hchange x.1.stop (.inr rfl)
  exact ⟨⟨first, hfirst, hstart ▸ ht.1⟩, last, hlast, hstop ▸ ht.2⟩

/-- Some instant of the bucket shows its peak before any load of the bucket passes the word. -/
theorem exists_clamp_load_eq_clamp_peak
    (hbefore : ∀ t < b, load demands d t ≤ d.word.greatest) :
    ∃ t ∈ s.bucket b, (∀ u < t, load demands d u ≤ d.word.greatest) ∧
      d.word.clamp (load demands d t) = d.word.clamp (peak s demands d b) := by
  by_cases hover : ∃ t, t ∈ s.bucket b ∧ d.word.greatest < load demands d t
  · -- the first overflow already shows the greatest amount of the word
    obtain ⟨t, ⟨ht, hload⟩, hfirst⟩ := Int.exists_least_of_bdd ⟨b, fun u hu => hu.1.1⟩ hover
    refine ⟨t, ht, ?_, ?_⟩
    · intro u hu
      by_contra hgt
      by_cases hub : u < b
      · exact hgt (hbefore u hub)
      · have := hfirst u ⟨⟨Int.not_lt.1 hub, Int.lt_trans hu ht.2⟩, Int.not_le.1 hgt⟩
        omega
    · have hpeak : load demands d t ≤ peak s demands d b := load_le_peak ht
      simp only [Word.clamp]
      omega
  · have hfits : ∀ t ∈ s.bucket b, load demands d t ≤ d.word.greatest := by
      intro t ht
      by_contra hgt
      exact hover ⟨t, ht, Int.not_le.1 hgt⟩
    obtain ⟨t, ht, hpeak⟩ := exists_load_eq_peak s demands d b
    refine ⟨t, ht, ?_, by rw [hpeak]⟩
    intro u hu
    by_cases hub : u < b
    · exact hbefore u hub
    · exact hfits u ⟨Int.not_lt.1 hub, Int.lt_trans hu ht.2⟩

section InTime

variable (htime : ∀ x ∈ demands, s.Reaches x.1)

include htime

theorem aligns_of_mem_changes : ∀ x ∈ (changes demands).toList, s.Aligns x.1 := by
  intro x hx
  obtain ⟨y, hy, hempty, _, hat⟩ := exists_of_mem_toList_changes hx
  unfold Interval.IsEmpty at hempty
  exact (htime y hy).aligns (by omega) (by omega)

/-- Points are stored at the starts of buckets only. -/
theorem starts_of_mem_ofIntervals (h : b ∈ (Profile.ofIntervals s demands).points) :
    s.Starts b := by
  have hpassed : ¬∀ t ∈ s.bucket b, Spans (changes demands).toList t → s.ms ∣ b →
      levelAt 0 (changes demands).toList t = 0 := by
    intro hnone
    exact (not_mem_sweep_iff (pairwise_toList _) (aligns_of_mem_changes htime)).2
      ⟨Std.ExtTreeMap.not_mem_empty, hnone⟩ h
  simp only [not_forall] at hpassed
  obtain ⟨t, ht, ⟨⟨x, hx, hle⟩, _⟩, hb, _⟩ := hpassed
  obtain ⟨y, hy, hlt⟩ := exists_lt_stop_of_mem_ofIntervals h
  have hstart : s.floor x.1 ≤ b := (Step.floor_le_iff hb).2 (Int.lt_of_le_of_lt hle ht.2)
  exact ⟨hb, Int.le_trans (aligns_of_mem_changes htime x hx).1 hstart,
    Int.le_trans hlt.le (htime y hy).2⟩

/-- What a bucket keeps is bounded by a bound of all levels in it. -/
theorem get_ofIntervals_le_iff {x : Int} (hb : s.ms ∣ b) :
    ((Profile.ofIntervals s demands).get b).get d ≤ x ↔
      0 ≤ x ∧ ∀ t ∈ s.bucket b, Spans (changes demands).toList t →
        (levelAt 0 (changes demands).toList t).get d ≤ x := by
  rw [ofIntervals_eq_sweep,
    get_sweep_le_iff (pairwise_toList _) (aligns_of_mem_changes htime) hb, Profile.get_empty,
    Resource.get_zero]
  refine and_congr_right fun hx => forall₃_congr fun t _ _ => ?_
  constructor
  · intro h
    by_cases hzero : levelAt 0 (changes demands).toList t = 0
    · rwa [hzero, Resource.get_zero]
    · exact h hzero
  · exact fun h _ => h

/-- A profile never tells more than the peak of a bucket, whatever has passed the word. -/
theorem get_ofIntervals_le (hnonneg : ∀ x ∈ demands, 0 ≤ x.2) (hb : s.ms ∣ b) :
    ((Profile.ofIntervals s demands).get b).get d ≤ d.word.clamp (peak s demands d b) := by
  have hpeak : 0 ≤ peak s demands d b := peak_nonneg hnonneg
  have hgreatest := d.word.greatest_pos
  refine (get_ofIntervals_le_iff htime hb).2 ⟨?_, ?_⟩
  · simp only [Word.clamp]
    omega
  · intro t ht _
    have hlevel := get_levelAt_changes_le (d := d) (t := t) hnonneg
    have hload : load demands d t ≤ peak s demands d b := load_le_peak ht
    have hword := (Resource.holds_get (levelAt 0 (changes demands).toList t) d).2
    simp only [Word.clamp]
    omega

/-- A profile tells the peak of a bucket, up to the greatest amount of the word, as long as no load
before the bucket has passed the word. -/
theorem get_ofIntervals (hnonneg : ∀ x ∈ demands, 0 ≤ x.2) (hb : s.ms ∣ b)
    (hbefore : ∀ t < b, load demands d t ≤ d.word.greatest) :
    ((Profile.ofIntervals s demands).get b).get d = d.word.clamp (peak s demands d b) := by
  apply Int.le_antisymm (get_ofIntervals_le htime hnonneg hb)
  obtain ⟨t, ht, hfits, hclamp⟩ := exists_clamp_load_eq_clamp_peak hbefore
  obtain ⟨hle, hlevels⟩ := (get_ofIntervals_le_iff htime hb).1
    (Int.le_refl (((Profile.ofIntervals s demands).get b).get d))
  rw [← hclamp]
  by_cases hload : load demands d t = 0
  · rwa [hload, Word.clamp_eq_self Word.holds_zero]
  · obtain ⟨x, hx, hzero, htx⟩ := exists_of_load_ne_zero hload
    rw [← get_levelAt_changes hnonneg hfits]
    exact hlevels t ht (spans_changes_of_mem hx hzero htx)

/-! ## Demands that the words can hold -/

theorem get_ofIntervals_of_holds (hnonneg : ∀ x ∈ demands, 0 ≤ x.2)
    (hword : ∀ t, d.word.Holds (load demands d t)) (hb : s.ms ∣ b) :
    ((Profile.ofIntervals s demands).get b).get d = peak s demands d b := by
  rw [get_ofIntervals htime hnonneg hb fun t _ => (hword t).2]
  obtain ⟨t, _, ht⟩ := exists_load_eq_peak s demands d b
  exact Word.clamp_eq_self (ht ▸ hword t)

/-- The stored buckets are those that share an instant with a demand for something. -/
theorem mem_ofIntervals_iff (hnonneg : ∀ x ∈ demands, 0 ≤ x.2)
    (hword : ∀ (d : Dimension) t, d.word.Holds (load demands d t)) :
    b ∈ (Profile.ofIntervals s demands).points ↔
      s.ms ∣ b ∧ ∃ x ∈ demands, x.2 ≠ 0 ∧ ∃ t ∈ s.bucket b, t ∈ x.1 := by
  constructor
  · intro h
    refine ⟨(starts_of_mem_ofIntervals htime h).1, ?_⟩
    by_contra hnone
    have hnot : b ∉ (Profile.ofIntervals s demands).points := by
      rw [ofIntervals_eq_sweep, not_mem_sweep_iff (pairwise_toList _) (aligns_of_mem_changes htime)]
      refine ⟨Std.ExtTreeMap.not_mem_empty, fun t ht _ _ => ?_⟩
      apply Resource.ext_get
      intro d
      rw [get_levelAt_changes hnonneg fun u _ => (hword d u).2, Word.clamp_eq_self (hword d t),
        Resource.get_zero]
      by_contra hload
      obtain ⟨x, hx, hzero, htx⟩ := exists_of_load_ne_zero hload
      exact hnone ⟨x, hx, hzero, t, ht, htx⟩
    exact hnot h
  · rintro ⟨hb, x, hx, hzero, t, ht, htx⟩
    apply Profile.mem_of_get_ne_zero
    obtain ⟨d, hd⟩ := Resource.exists_get_pos (hnonneg x hx) hzero
    intro hget
    have hpeak := get_ofIntervals_of_holds htime hnonneg (hword d) hb
    have hle : x.2.get d ≤ peak s demands d b :=
      Int.le_trans (get_le_load hnonneg hx htx) (load_le_peak ht)
    rw [hget, Resource.get_zero] at hpeak
    omega

end InTime

/-- The order of the demands is of no account. -/
theorem ofIntervals_perm {others : List (Interval × Resource)}
    (htime : ∀ x ∈ demands, s.Reaches x.1) (hnonneg : ∀ x ∈ demands, 0 ≤ x.2)
    (hword : ∀ (d : Dimension) t, d.word.Holds (load demands d t)) (hperm : demands.Perm others) :
    Profile.ofIntervals s others = Profile.ofIntervals s demands := by
  have htime' : ∀ x ∈ others, s.Reaches x.1 := fun x hx => htime x (hperm.mem_iff.2 hx)
  have hnonneg' : ∀ x ∈ others, 0 ≤ x.2 := fun x hx => hnonneg x (hperm.mem_iff.2 hx)
  have hword' : ∀ (d : Dimension) t, d.word.Holds (load others d t) := by
    intro d t
    unfold load
    rw [← amount_perm hperm]
    exact hword d t
  apply Profile.ext_of_mem_iff
  · intro b
    rw [mem_ofIntervals_iff htime hnonneg hword, mem_ofIntervals_iff htime' hnonneg' hword']
    simp only [hperm.mem_iff]
  · intro b
    apply Resource.ext_get
    intro d
    by_cases hb : s.ms ∣ b
    · rw [get_ofIntervals_of_holds htime hnonneg (hword d) hb,
        get_ofIntervals_of_holds htime' hnonneg' (hword' d) hb, peak_perm hperm]
    · rw [Profile.get_of_not_dvd (fun _ => starts_of_mem_ofIntervals htime) hb,
        Profile.get_of_not_dvd (fun _ => starts_of_mem_ofIntervals htime') hb]

/-- **Sampling is exact.** Of demands in time whose loads fit their word, the profile stores the
buckets in which something is asked for, with the greatest load of each. -/
theorem ofIntervals_samples_peaks (htime : ∀ x ∈ demands, s.Reaches x.1)
    (hnonneg : ∀ x ∈ demands, 0 ≤ x.2)
    (hword : ∀ (d : Dimension) t, d.word.Holds (load demands d t)) :
    (∀ b, b ∈ (Profile.ofIntervals s demands).points ↔
      s.ms ∣ b ∧ ∃ x ∈ demands, x.2 ≠ 0 ∧ ∃ t ∈ s.bucket b, t ∈ x.1) ∧
    (∀ b r, (Profile.ofIntervals s demands).points[b]? = some r →
      ∀ d, IsGreatest {v | ∃ t ∈ s.bucket b, v = load demands d t} (r.get d)) ∧
    (∀ b t, Word.word64.Holds t → s.ms ∣ b → t ∈ s.bucket b →
      (Profile.ofIntervals s demands).demandAt s t =
        ((Profile.ofIntervals s demands).points[b]?).getD 0) ∧
    ∀ others, demands.Perm others →
      Profile.ofIntervals s others = Profile.ofIntervals s demands := by
  refine ⟨fun b => mem_ofIntervals_iff htime hnonneg hword, ?_, ?_,
    fun _ => ofIntervals_perm htime hnonneg hword⟩
  · intro b r hr d
    have hmem : b ∈ (Profile.ofIntervals s demands).points := by
      rw [Std.ExtTreeMap.mem_iff_isSome_getElem?, hr]
      rfl
    rw [Profile.getElem?_points_of_mem hmem] at hr
    obtain rfl := Option.some.inj hr
    rw [get_ofIntervals_of_holds htime hnonneg (hword d) (starts_of_mem_ofIntervals htime hmem).1]
    exact isGreatest_peak
  · intro b t ht hb hmem
    rw [Profile.demandAt_eq_get_floor (fun _ => starts_of_mem_ofIntervals htime) ht,
      Step.floor_eq_of_mem hb hmem, Profile.get, Std.ExtTreeMap.getD_eq_getD_getElem?]

/-- Demands that overlap inside of a bucket. -/
def overlapping : List (Interval × Resource) :=
  [(⟨5, 15⟩, .ofAmounts 60 1 0), (⟨10, 25⟩, .ofAmounts 40 2 5)]

/-- Demands that overlap are stored with their sum, which is their greatest load. -/
theorem overlapping_samples_peaks :
    (Profile.ofIntervals ⟨10, by decide⟩ overlapping).points[(10 : Int)]? =
      some (.ofAmounts 100 3 5) ∧
    ∀ d, IsGreatest {v | ∃ t ∈ (⟨10, by decide⟩ : Step).bucket 10, v = load overlapping d t}
      ((Resource.ofAmounts 100 3 5).get d) := by
  have htime : ∀ x ∈ overlapping, (⟨10, by decide⟩ : Step).Reaches x.1 := by decide
  have hnonneg : ∀ x ∈ overlapping, 0 ≤ x.2 := by decide
  have hword : ∀ (d : Dimension) t, d.word.Holds (load overlapping d t) := by
    intro d t
    simp only [load, overlapping, amount_cons, amount_nil]
    split_ifs <;> cases d <;> decide
  have hstored : (Profile.ofIntervals ⟨10, by decide⟩ overlapping).points[(10 : Int)]? =
      some (.ofAmounts 100 3 5) := by
    decide +kernel
  exact ⟨hstored, (ofIntervals_samples_peaks htime hnonneg hword).2.1 10 _ hstored⟩

end Allotment.Demand
