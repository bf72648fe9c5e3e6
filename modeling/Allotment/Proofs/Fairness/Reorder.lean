import Mathlib.Data.Finset.Card
import Mathlib.Data.List.Nodup
import Mathlib.Data.List.Perm.Basic
import Allotment.Fairness.Reorder

/-!
# Reordering ends, and follows the order

The walk swaps what stands at a position to its target as long as the position is not its own
target. Nothing in it bounds the swaps. It ends because the targets are a permutation: a swap
settles the target, which was not settled before, and unsettles nothing. Elements and targets are
swapped alike, so what stands at a position always goes where it was meant to go.
-/

namespace Allotment.Fairness

variable {α : Type}

/-- The elements, and where each has to go. -/
abbrev Arrangement (α : Type) :=
  Array α × Array Nat

def Arrangement.swap (s : Arrangement α) (i j : Nat) : Arrangement α :=
  (s.1.swapIfInBounds i j, s.2.swapIfInBounds i j)

/-- The walk at position `i`, with as many swaps as it takes. -/
inductive Settles (i : Nat) : Arrangement α → Arrangement α → Prop where
  | settled {s : Arrangement α} : s.2[i]? = some i → Settles i s s
  | swap {s s' : Arrangement α} {j : Nat} :
      s.2[i]? = some j → j ≠ i → Settles i (s.swap i j) s' → Settles i s s'

/-- The walk at one position after another. -/
inductive SettlesAll : List Nat → Arrangement α → Arrangement α → Prop where
  | nil {s : Arrangement α} : SettlesAll [] s s
  | cons {i : Nat} {is : List Nat} {s s' s'' : Arrangement α} :
      Settles i s s' → SettlesAll is s' s'' → SettlesAll (i :: is) s s''

variable {i j k p n swaps : Nat} {is : List Nat} {s s' s'' : Arrangement α} {goal : Nat → Option α}

/-! ## There is only one walk -/

theorem Settles.unique (h : Settles i s s') (h' : Settles i s s'') : s' = s'' := by
  induction h with
  | settled hi =>
      cases h' with
      | settled _ => rfl
      | swap hj hne _ => exact absurd (Option.some.inj (hj.symm.trans hi)) hne
  | swap hj hne _ ih =>
      cases h' with
      | settled hi => exact absurd (Option.some.inj (hj.symm.trans hi)) hne
      | swap hk _ hrest =>
          obtain rfl := Option.some.inj (hj.symm.trans hk)
          exact ih hrest

theorem SettlesAll.unique (h : SettlesAll is s s') (h' : SettlesAll is s s'') : s' = s'' := by
  induction h with
  | nil =>
      cases h'
      rfl
  | cons hfirst _ ih =>
      cases h' with
      | cons hfirst' hrest' =>
          obtain rfl := hfirst.unique hfirst'
          exact ih hrest'

/-! ## What a swap keeps -/

theorem getElem?_swapIfInBounds {β : Type} {a : Array β} (hi : i < a.size) (hj : j < a.size) :
    (a.swapIfInBounds i j)[k]? = if k = i then a[j]? else if k = j then a[i]? else a[k]? := by
  rw [Array.swapIfInBounds_def, dif_pos hi, dif_pos hj, Array.getElem?_swap]
  by_cases hki : k = i
  · subst hki
    by_cases hkj : j = k
    · subst hkj
      simp
    · simp [hkj, hj]
  · by_cases hkj : k = j
    · subst hkj
      simp [hki, hi]
    · simp [hki, hkj, Ne.symm hki, Ne.symm hkj]

/-- What stands at each position is what is wanted at its target. -/
structure Heads (goal : Nat → Option α) (s : Arrangement α) : Prop where
  targets : s.2.toList.Perm (List.range s.1.size)
  wanted : ∀ p : Nat, s.2[p]?.bind goal = s.1[p]?

namespace Heads

theorem size_eq (h : Heads goal s) : s.2.size = s.1.size := by
  have hlength := h.targets.length_eq
  simpa using hlength

theorem target_lt (h : Heads goal s) (hj : s.2[p]? = some j) : j < s.1.size := by
  have hmem : j ∈ s.2.toList := Array.mem_toList_iff.2 (Array.mem_of_getElem? hj)
  simpa using h.targets.mem_iff.1 hmem

theorem lt_of_target (h : Heads goal s) (hj : s.2[p]? = some j) : p < s.1.size := by
  obtain ⟨hp, _⟩ := Array.getElem?_eq_some_iff.1 hj
  rwa [h.size_eq] at hp

theorem exists_target (h : Heads goal s) (hp : p < s.1.size) : ∃ j, s.2[p]? = some j := by
  rw [← h.size_eq] at hp
  exact ⟨s.2[p], Array.getElem?_eq_getElem hp⟩

/-- No two positions have the same target. -/
theorem target_inj (h : Heads goal s) (hi : s.2[i]? = some j) (hk : s.2[k]? = some j) : i = k := by
  have hnodup : s.2.toList.Nodup := h.targets.nodup_iff.2 List.nodup_range
  have hilt : i < s.2.toList.length := by
    simpa [h.size_eq] using h.lt_of_target hi
  apply (List.getElem?_inj hilt hnodup).1
  rw [Array.getElem?_toList, Array.getElem?_toList, hi, hk]

theorem getElem?_swap (h : Heads goal s) (hj : s.2[i]? = some j) :
    (s.swap i j).2[p]? = if p = i then s.2[j]? else if p = j then s.2[i]? else s.2[p]? :=
  getElem?_swapIfInBounds (h.size_eq ▸ h.lt_of_target hj) (h.size_eq ▸ h.target_lt hj)

theorem swap (h : Heads goal s) (hj : s.2[i]? = some j) : Heads goal (s.swap i j) where
  targets := by
    have hperm : (s.swap i j).2.toList.Perm s.2.toList := by
      have hilt : i < s.2.size := h.size_eq ▸ h.lt_of_target hj
      have hjlt : j < s.2.size := h.size_eq ▸ h.target_lt hj
      change (s.2.swapIfInBounds i j).toList.Perm s.2.toList
      rw [Array.swapIfInBounds_def, dif_pos hilt, dif_pos hjlt]
      exact (Array.swap_perm hilt hjlt).toList
    have hsize : (s.swap i j).1.size = s.1.size := by simp [Arrangement.swap]
    rw [hsize]
    exact hperm.trans h.targets
  wanted p := by
    have helements : (s.swap i j).1[p]? =
        if p = i then s.1[j]? else if p = j then s.1[i]? else s.1[p]? :=
      getElem?_swapIfInBounds (h.lt_of_target hj) (h.target_lt hj)
    rw [helements, h.getElem?_swap hj]
    split_ifs
    · exact h.wanted j
    · exact h.wanted i
    · exact h.wanted p

/-- A swap leaves alone what is settled. -/
theorem settled_swap (h : Heads goal s) (hj : s.2[i]? = some j) (hne : j ≠ i)
    (hp : s.2[p]? = some p) : (s.swap i j).2[p]? = some p := by
  have hpi : p ≠ i := by
    rintro rfl
    exact hne (Option.some.inj (hj.symm.trans hp))
  have hpj : p ≠ j := by
    rintro rfl
    exact hpi (h.target_inj hp hj)
  rw [h.getElem?_swap hj, if_neg hpi, if_neg hpj, hp]

end Heads

/-! ## The swaps that are left -/

/-- The positions that are not their own targets. -/
def unsettled (s : Arrangement α) : Finset Nat :=
  (Finset.range s.1.size).filter fun p => s.2[p]? ≠ some p

theorem Heads.card_unsettled_swap_lt (h : Heads goal s) (hj : s.2[i]? = some j) (hne : j ≠ i) :
    (unsettled (s.swap i j)).card < (unsettled s).card := by
  have hsize : (s.swap i j).1.size = s.1.size := by simp [Arrangement.swap]
  apply Finset.card_lt_card
  rw [Finset.ssubset_iff_of_subset]
  · -- the target is settled by the swap and was not before
    refine ⟨j, ?_, ?_⟩
    · have hother : s.2[j]? ≠ some j := fun hsame => hne (h.target_inj hsame hj)
      simpa [unsettled] using ⟨h.target_lt hj, hother⟩
    · simp [unsettled, h.getElem?_swap hj, hne, hj]
  · intro p hp
    simp only [unsettled, Finset.mem_filter, Finset.mem_range, hsize] at hp ⊢
    exact ⟨hp.1, fun hsettled => hp.2 (h.settled_swap hj hne hsettled)⟩

/-- The walk ends if there are as many swaps as positions to settle. -/
theorem Heads.settles (h : Heads goal s) (hi : i < s.1.size) (hswaps : (unsettled s).card ≤ swaps) :
    Settles i s (settle i swaps s) := by
  induction swaps generalizing s with
  | zero =>
      apply Settles.settled
      by_contra hne
      have hmem : i ∈ unsettled s := by simp [unsettled, hi, hne]
      rw [Nat.le_zero, Finset.card_eq_zero] at hswaps
      simp [hswaps] at hmem
  | succ swaps ih =>
      obtain ⟨j, hj⟩ := h.exists_target hi
      simp only [settle, hj]
      by_cases hne : j = i
      · rw [if_pos hne]
        exact .settled (hne ▸ hj)
      · rw [if_neg hne]
        have hless := h.card_unsettled_swap_lt hj hne
        apply Settles.swap hj hne
        apply ih (h.swap hj)
        · simpa [Arrangement.swap] using hi
        · omega

theorem card_unsettled_le : (unsettled s).card ≤ s.1.size := by
  apply (Finset.card_filter_le _ _).trans
  rw [Finset.card_range]

/-! ## What the whole walk does -/

theorem Settles.heads (hs : Settles i s s') (h : Heads goal s) : Heads goal s' := by
  induction hs with
  | settled _ => exact h
  | swap hj _ _ ih => exact ih (h.swap hj)

theorem Settles.settled_of_settled (hs : Settles i s s') (h : Heads goal s)
    (hp : s.2[p]? = some p) : s'.2[p]? = some p := by
  induction hs with
  | settled _ => exact hp
  | swap hj hne _ ih => exact ih (h.swap hj) (h.settled_swap hj hne hp)

theorem Settles.settled_self (hs : Settles i s s') : s'.2[i]? = some i := by
  induction hs with
  | settled hi => exact hi
  | swap _ _ _ ih => exact ih

theorem Settles.size_eq (hs : Settles i s s') : s'.1.size = s.1.size := by
  induction hs with
  | settled _ => rfl
  | swap _ _ _ ih => simpa [Arrangement.swap] using ih

theorem SettlesAll.heads (hs : SettlesAll is s s') (h : Heads goal s) : Heads goal s' := by
  induction hs with
  | nil => exact h
  | cons hfirst _ ih => exact ih (hfirst.heads h)

theorem SettlesAll.size_eq (hs : SettlesAll is s s') : s'.1.size = s.1.size := by
  induction hs with
  | nil => rfl
  | cons hfirst _ ih => exact ih.trans hfirst.size_eq

theorem SettlesAll.settled_of_settled (hs : SettlesAll is s s') (h : Heads goal s)
    (hp : s.2[p]? = some p) : s'.2[p]? = some p := by
  induction hs with
  | nil => exact hp
  | cons hfirst _ ih => exact ih (hfirst.heads h) (hfirst.settled_of_settled h hp)

theorem SettlesAll.settled (hs : SettlesAll is s s') (h : Heads goal s) (hi : i ∈ is) :
    s'.2[i]? = some i := by
  induction hs with
  | nil => simp at hi
  | cons hfirst hrest ih =>
      rcases List.mem_cons.1 hi with rfl | hi
      · exact hrest.settled_of_settled (hfirst.heads h) hfirst.settled_self
      · exact ih (hfirst.heads h) hi

/-- As many swaps as there are elements are enough at each position. -/
theorem Heads.settlesAll (h : Heads goal s) (hn : s.1.size = n) (his : ∀ i ∈ is, i < n) :
    SettlesAll is s (is.foldl (fun s i => settle i n s) s) := by
  induction is generalizing s with
  | nil => exact .nil
  | cons i is ih =>
      have hfirst : Settles i s (settle i n s) :=
        h.settles (hn ▸ his i List.mem_cons_self) (hn ▸ card_unsettled_le)
      apply SettlesAll.cons hfirst
      apply ih (hfirst.heads h) (hfirst.size_eq.trans hn)
      exact fun k hk => his k (List.mem_cons_of_mem i hk)

/-! ## The targets of an order -/

theorem getElem?_foldl_setIfInBounds_of_not_mem {l : List (Nat × Nat)} {t : Array Nat}
    (hp : p ∉ l.map (·.1)) :
    (l.foldl (fun t x => t.setIfInBounds x.1 x.2) t)[p]? = t[p]? := by
  induction l generalizing t with
  | nil => rfl
  | cons x l ih =>
      obtain ⟨hne, hrest⟩ := not_or.1 (mt List.mem_cons.2 hp)
      rw [List.foldl_cons, ih hrest, Array.getElem?_setIfInBounds_ne (Ne.symm hne)]

theorem getElem?_foldl_setIfInBounds_of_mem {l : List (Nat × Nat)} {t : Array Nat}
    (hl : (l.map (·.1)).Nodup) (hk : (p, k) ∈ l) (hp : p < t.size) :
    (l.foldl (fun t x => t.setIfInBounds x.1 x.2) t)[p]? = some k := by
  induction l generalizing t with
  | nil => simp at hk
  | cons x l ih =>
      obtain ⟨hx, hl⟩ := List.nodup_cons.1 hl
      rw [List.foldl_cons]
      rcases List.mem_cons.1 hk with rfl | hk
      · rw [getElem?_foldl_setIfInBounds_of_not_mem hx, Array.getElem?_setIfInBounds_self_of_lt hp]
      · exact ih hl hk (by simpa using hp)

variable {xs : Array α} {order : Array Nat}

theorem targets_eq_foldl_toList : targets order =
    order.toList.zipIdx.foldl (fun t x => t.setIfInBounds x.1 x.2)
      (Array.replicate order.size 0) := by
  rw [targets, ← Array.foldl_toList, Array.toList_zipIdx]

theorem size_targets : (targets order).size = order.size := by
  rw [targets_eq_foldl_toList]
  generalize order.toList.zipIdx = l
  suffices hsize : ∀ t : Array Nat,
      (l.foldl (fun t x => t.setIfInBounds x.1 x.2) t).size = t.size by
    rw [hsize, Array.size_replicate]
  induction l with
  | nil => exact fun t => rfl
  | cons x l ih => exact fun t => (ih _).trans Array.size_setIfInBounds

/-- The target of a position is where the order has it. -/
theorem getElem?_targets (horder : order.toList.Perm (List.range order.size))
    (hk : order[k]? = some p) : (targets order)[p]? = some k := by
  have hmem : p ∈ order.toList := Array.mem_toList_iff.2 (Array.mem_of_getElem? hk)
  have hp : p < order.size := by simpa using horder.mem_iff.1 hmem
  rw [targets_eq_foldl_toList]
  apply getElem?_foldl_setIfInBounds_of_mem
  · rw [List.zipIdx_map_fst]
    exact horder.nodup_iff.2 List.nodup_range
  · rw [List.mem_zipIdx_iff_getElem?, Array.getElem?_toList, hk]
  · rwa [Array.size_replicate]

theorem heads_targets (horder : order.toList.Perm (List.range xs.size)) :
    Heads (fun k => order[k]?.bind (xs[·]?)) (xs, targets order) := by
  have hsize : order.size = xs.size := by simpa using horder.length_eq
  have htarget : ∀ k p, order[k]? = some p → (targets order)[p]? = some k :=
    fun k p hk => getElem?_targets (hsize ▸ horder) hk
  constructor
  · have hsubset : List.range xs.size ⊆ (targets order).toList := by
      intro k hk
      have hklt : k < order.size := by simpa [hsize] using hk
      apply Array.mem_toList_iff.2
      exact Array.mem_of_getElem? (htarget k order[k] (Array.getElem?_eq_getElem hklt))
    apply List.Perm.symm
    apply (List.subperm_of_subset List.nodup_range hsubset).perm_of_length_le
    simp [size_targets, hsize]
  · intro p
    by_cases hp : p < xs.size
    · have hmem : p ∈ order.toList := horder.mem_iff.2 (List.mem_range.2 hp)
      obtain ⟨k, hk⟩ := List.getElem?_of_mem hmem
      rw [Array.getElem?_toList] at hk
      simp [htarget k p hk, hk]
    · have hlen : (targets order).size ≤ p := by
        rw [size_targets, hsize]
        omega
      rw [Array.getElem?_eq_none hlen, Array.getElem?_eq_none (Nat.le_of_not_lt hp)]
      rfl

/-! ## Reordering -/

theorem settlesAll_reorder (horder : order.toList.Perm (List.range xs.size)) :
    SettlesAll (List.range xs.size) (xs, targets order)
      (reorder xs order, Array.range xs.size) := by
  have hheads := heads_targets horder
  have hwalk := hheads.settlesAll rfl fun i (hi : i ∈ List.range xs.size) => List.mem_range.1 hi
  -- every position is settled at the end, and then the targets are the positions themselves
  have htargets : ∀ {s : Arrangement α},
      SettlesAll (List.range xs.size) (xs, targets order) s → s.2 = Array.range xs.size := by
    intro s hs
    apply Array.ext_getElem?
    intro p
    by_cases hp : p < xs.size
    · rw [hs.settled hheads (List.mem_range.2 hp)]
      simp [hp]
    · have hlen : s.2.size ≤ p := by
        rw [(hs.heads hheads).size_eq, hs.size_eq]
        exact Nat.le_of_not_lt hp
      rw [Array.getElem?_eq_none hlen]
      simp [hp]
  rw [← htargets hwalk]
  exact hwalk

theorem getElem?_reorder (horder : order.toList.Perm (List.range xs.size)) (i : Nat) :
    (reorder xs order)[i]? = order[i]?.bind (xs[·]?) := by
  have hwalk := settlesAll_reorder horder
  have hheads := hwalk.heads (heads_targets horder)
  have hwanted := hheads.wanted i
  by_cases hi : i < xs.size
  · simpa [hi] using hwanted.symm
  · have hsize : order.size = xs.size := by simpa using horder.length_eq
    have horderSize : order.size ≤ i := by omega
    rw [Array.getElem?_eq_none horderSize]
    simpa [hi] using hwanted.symm

/-- The elements that are left are those found at the positions in the order. -/
theorem map_some_toList_reorder (horder : order.toList.Perm (List.range xs.size)) :
    (reorder xs order).toList.map some = order.toList.map (xs[·]?) := by
  apply List.ext_getElem?
  intro i
  have hi := getElem?_reorder horder i
  rw [List.getElem?_map, List.getElem?_map, Array.getElem?_toList, Array.getElem?_toList, hi]
  cases hk : order[i]? with
  | none => rfl
  | some k =>
      have hmem : k ∈ order.toList := Array.mem_toList_iff.2 (Array.mem_of_getElem? hk)
      have hklt : k < xs.size := List.mem_range.1 (horder.mem_iff.1 hmem)
      simp [hklt]

end Allotment.Fairness
