import Allotment.Yardstick

/-!
# Yardsticks are total preorders

Under the yardstick of shares each resource brings its shares in an order of its own, so shares of
different dimensions meet at one position, and resources that differ may be equivalent. All the same
the shares are compared one position after another in the total order of doubles, which makes a
total preorder, and the smaller and the larger of two resources are read off it.
-/

namespace Allotment.Yardstick

open Resource (sortedShares)

variable {y : Yardstick} {cluster a b c : Resource}

/-! ## The first difference -/

theorem firstDifference_cons (o : Ordering) (answers : List Ordering) :
    firstDifference (o :: answers) = o.then (firstDifference answers) := by
  cases o <;> rfl

theorem firstDifference_zipWith {α : Type} (cmp : α → α → Ordering) {l m : List α}
    (hlength : l.length = m.length) :
    firstDifference (List.zipWith cmp l m) = List.compareLex cmp l m := by
  induction l generalizing m with
  | nil =>
      cases m with
      | nil => rfl
      | cons z m => simp at hlength
  | cons x l ih =>
      cases m with
      | nil => simp at hlength
      | cons z m =>
          have htail : l.length = m.length := by simpa using hlength
          rw [List.zipWith_cons_cons, firstDifference_cons, List.compareLex_cons_cons, ih htail]

theorem length_sortedShares : (sortedShares cluster a).length = 3 := by
  simp [sortedShares, Dimension.all]

/-- Equal resources have the same shares, so it makes no difference that these are not looked at. -/
theorem compare_dominantShare :
    dominantShare.compare cluster a b =
      List.compareLex Binary64.compare (sortedShares cluster a) (sortedShares cluster b) := by
  by_cases hsame : a = b
  · simp only [compare, hsame, if_true]
    exact Std.ReflCmp.compare_self.symm
  · simp only [compare, hsame, if_false]
    apply firstDifference_zipWith
    rw [length_sortedShares, length_sortedShares]

/-! ## The order -/

theorem compare_eq_swap : y.compare cluster a b = (y.compare cluster b a).swap := by
  cases y with
  | memoryOnly => exact Std.OrientedOrd.eq_swap
  | dominantShare =>
      rw [compare_dominantShare, compare_dominantShare]
      exact Std.OrientedCmp.eq_swap

theorem isLE_compare_trans (hab : (y.compare cluster a b).isLE)
    (hbc : (y.compare cluster b c).isLE) : (y.compare cluster a c).isLE := by
  cases y with
  | memoryOnly => exact Std.TransOrd.isLE_trans hab hbc
  | dominantShare =>
      rw [compare_dominantShare] at hab hbc ⊢
      exact Std.TransCmp.isLE_trans hab hbc

instance (y : Yardstick) (cluster : Resource) : Std.TransCmp (y.compare cluster) where
  eq_swap := compare_eq_swap
  isLE_trans := isLE_compare_trans

theorem compare_self : y.compare cluster a a = .eq :=
  Std.ReflCmp.compare_self

/-! ## The smaller and the larger of two -/

theorem min_is_lower : (y.min cluster a b = a ∨ y.min cluster a b = b) ∧
    y.compare cluster (y.min cluster a b) a ≠ .gt ∧
    y.compare cluster (y.min cluster a b) b ≠ .gt := by
  unfold Yardstick.min
  split
  · rename_i hle
    have hle : y.compare cluster a b ≠ .gt := by simpa [isLessOrEqual] using hle
    exact ⟨.inl rfl, by simp [compare_self], hle⟩
  · rename_i hgt
    have hgt : y.compare cluster a b = .gt := by simpa [isLessOrEqual] using hgt
    have hlt : y.compare cluster b a = .lt := by rw [compare_eq_swap, hgt]; rfl
    exact ⟨.inr rfl, by simp [hlt], by simp [compare_self]⟩

theorem max_is_upper : (y.max cluster a b = a ∨ y.max cluster a b = b) ∧
    y.compare cluster (y.max cluster a b) a ≠ .lt ∧
    y.compare cluster (y.max cluster a b) b ≠ .lt := by
  unfold Yardstick.max
  split
  · rename_i hge
    have hge : y.compare cluster a b ≠ .lt := by simpa [isGreaterOrEqual] using hge
    exact ⟨.inl rfl, by simp [compare_self], hge⟩
  · rename_i hlt
    have hlt : y.compare cluster a b = .lt := by simpa [isGreaterOrEqual] using hlt
    have hgt : y.compare cluster b a = .gt := by rw [compare_eq_swap, hlt]; rfl
    exact ⟨.inr rfl, by simp [hgt], by simp [compare_self]⟩

/-- **Each yardstick is a total preorder**, whatever the cluster has in each dimension, nothing or
less than nothing included. -/
theorem yardstick_orders_resources (y : Yardstick) (cluster a b c : Resource) :
    let compare := y.compare cluster
    compare a a = .eq ∧ compare a b = (compare b a).swap ∧
      (compare a b ≠ .gt → compare b c ≠ .gt →
        compare a c ≠ .gt ∧ (compare a b = .lt ∨ compare b c = .lt → compare a c = .lt)) ∧
      (compare a b = .eq → compare b c = .eq → compare a c = .eq) ∧
      (y.isLess cluster a b ↔ compare a b = .lt) ∧
      (y.isLessOrEqual cluster a b ↔ compare a b ≠ .gt) ∧
      (y.isGreater cluster a b ↔ compare a b = .gt) ∧
      (y.isGreaterOrEqual cluster a b ↔ compare a b ≠ .lt) ∧
      ((y.min cluster a b = a ∨ y.min cluster a b = b) ∧
        compare (y.min cluster a b) a ≠ .gt ∧ compare (y.min cluster a b) b ≠ .gt) ∧
      (y.max cluster a b = a ∨ y.max cluster a b = b) ∧
        compare (y.max cluster a b) a ≠ .lt ∧ compare (y.max cluster a b) b ≠ .lt := by
  intro compare
  refine ⟨compare_self, compare_eq_swap, fun hab hbc => ?_, Std.TransCmp.eq_trans,
    by simp [isLess, compare], by simp [isLessOrEqual, compare], by simp [isGreater, compare],
    by simp [isGreaterOrEqual, compare], min_is_lower, max_is_upper⟩
  have hab : (compare a b).isLE := Ordering.isLE_iff_ne_gt.2 hab
  have hbc : (compare b c).isLE := Ordering.isLE_iff_ne_gt.2 hbc
  constructor
  · exact Ordering.isLE_iff_ne_gt.1 (Std.TransCmp.isLE_trans hab hbc)
  · rintro (hlt | hlt)
    · exact Std.TransCmp.lt_of_lt_of_isLE hlt hbc
    · exact Std.TransCmp.lt_of_isLE_of_lt hab hlt

theorem mergeSort_triple {α : Type} {le : α → α → Bool} {p q r : α} :
    [p, q, r].mergeSort le =
      if le p q then
        if le p r then p :: (if le q r then [q, r] else [r, q]) else [r, p, q]
      else
        if le q r then q :: (if le p r then [p, r] else [r, p]) else [r, q, p] := by
  have hsplit : [p, q, r].mergeSort le = ([p, q].mergeSort le).merge [r] le := by
    rw [List.mergeSort]
    simp [List.MergeSort.Internal.splitInTwo]
  have hpair : [p, q].mergeSort le = if le p q then [p, q] else [q, p] := by
    rw [List.mergeSort]
    simp [List.MergeSort.Internal.splitInTwo, List.merge]
  rw [hsplit, hpair]
  by_cases hpq : le p q
  · by_cases hpr : le p r <;> simp [hpq, hpr, List.merge]
  · by_cases hqr : le q r <;> simp [hpq, hqr, List.merge]

/-- The cluster is without cores and owes GPU memory, of which the middle resource has its largest
share. -/
theorem debtor_cluster_orders_resources :
    let cluster := Resource.ofAmounts 8000 0 (-256)
    let compare := dominantShare.compare cluster
    let low := Resource.ofAmounts 4000 3 0
    let middle := Resource.ofAmounts 2000 5 (-160)
    let high := Resource.ofAmounts 6000 1 0
    compare low middle = .lt ∧ compare middle high = .lt ∧ compare low high = .lt ∧
      compare (dominantShare.min cluster low high) high ≠ .gt := by
  intro cluster compare low middle high
  have hfirst : dominantShare.compare cluster low middle = .lt := by
    simp only [compare_dominantShare, sortedShares, Dimension.all, List.map_cons,
      List.map_nil, mergeSort_triple]
    decide +kernel
  have hsecond : dominantShare.compare cluster middle high = .lt := by
    simp only [compare_dominantShare, sortedShares, Dimension.all, List.map_cons,
      List.map_nil, mergeSort_triple]
    decide +kernel
  obtain ⟨_, _, htrans, _⟩ := yardstick_orders_resources dominantShare cluster low middle high
  obtain ⟨_, _, _, _, _, _, _, _, ⟨_, _, hmin⟩, _⟩ :=
    yardstick_orders_resources dominantShare cluster low high high
  have hthird := (htrans (by simp [hfirst]) (by simp [hsecond])).2 (.inl hfirst)
  exact ⟨hfirst, hsecond, hthird, hmin⟩

end Allotment.Yardstick
