import Allotment.Proofs.Binary64.Order
import Allotment.Proofs.Yardstick.Preorder

/-!
# What fits is not the larger

A resource that fits in another has no larger share in any dimension, since the conversion of an
amount and its division by the total keep the order. Its largest share may be of another dimension
than that of the other resource, so the sorted shares are compared by counting: there are no more
shares from any level up, whatever the dimensions are. Then the first position at which the sorted
shares differ is in favour of the other resource.
-/

namespace Allotment

open Resource (sortedShares)

/-! ## Shares of one dimension -/

theorem orderKey_share_mono {a b total : Int} (htotal : 0 ≤ total) (hab : a ≤ b)
    (ha : Word.word64.Holds a) (hb : Word.word64.Holds b) (hword : Word.word64.Holds total) :
    Binary64.orderKey (share a total) ≤ Binary64.orderKey (share b total) := by
  unfold share
  by_cases hzero : total = 0
  · rw [if_pos hzero, if_pos hzero]
  · rw [if_neg hzero, if_neg hzero]
    simp only [Word.Holds, Word.least, Word.greatest] at ha hb hword
    exact Binary64.orderKey_quotient_mono (by omega) (by omega) hab (by omega) (by omega)

/-! ## Shares from a level up -/

/-- From any level up there are at least as many doubles in the second list as in the first. -/
def Dominated (l m : List Float) : Prop :=
  ∀ level : Int, l.countP (level ≤ Binary64.orderKey ·) ≤ m.countP (level ≤ Binary64.orderKey ·)

variable {l m l' m' : List Float} {x y : Float}

theorem Binary64.isLE_compare_iff :
    (Binary64.compare x y).isLE ↔ Binary64.orderKey x ≤ Binary64.orderKey y :=
  Std.isLE_compare

theorem dominated_map {α : Type} {items : List α} {f g : α → Float}
    (h : ∀ d, Binary64.orderKey (f d) ≤ Binary64.orderKey (g d)) :
    Dominated (items.map f) (items.map g) := by
  intro level
  rw [List.countP_map, List.countP_map]
  apply List.countP_mono_left
  intro d _ hd
  simp only [Function.comp_apply, decide_eq_true_eq] at hd ⊢
  exact hd.trans (h d)

theorem Dominated.perm (h : Dominated l m) (hl : l'.Perm l) (hm : m'.Perm m) :
    Dominated l' m' := by
  intro level
  rw [hl.countP_eq, hm.countP_eq]
  exact h level

theorem Dominated.head_le (h : Dominated (x :: l) (y :: m))
    (hfall : (y :: m).Pairwise fun a b => (Binary64.compare b a).isLE) :
    Binary64.orderKey x ≤ Binary64.orderKey y := by
  have hcount : 0 < (y :: m).countP (Binary64.orderKey x ≤ Binary64.orderKey ·) := by
    refine Nat.lt_of_lt_of_le ?_ (h (Binary64.orderKey x))
    exact List.countP_pos_iff.2 ⟨x, List.mem_cons_self, by simp⟩
  obtain ⟨z, hz, hle⟩ := List.countP_pos_iff.1 hcount
  have hle : Binary64.orderKey x ≤ Binary64.orderKey z := of_decide_eq_true hle
  rcases List.mem_cons.1 hz with rfl | hz
  · exact hle
  · exact hle.trans (Binary64.isLE_compare_iff.1 ((List.pairwise_cons.1 hfall).1 z hz))

theorem Dominated.tail (h : Dominated (x :: l) (y :: m))
    (hsame : Binary64.orderKey x = Binary64.orderKey y) : Dominated l m := by
  intro level
  have hcount := h level
  rw [List.countP_cons, List.countP_cons, hsame] at hcount
  omega

/-- A list from the largest double down is not before any list that it dominates. -/
theorem Dominated.isLE_compareLex (h : Dominated l m)
    (hfall : m.Pairwise fun a b => (Binary64.compare b a).isLE) :
    (List.compareLex Binary64.compare l m).isLE := by
  induction l generalizing m with
  | nil => cases m <;> rfl
  | cons x l ih =>
      cases m with
      | nil =>
          have hnone := h (Binary64.orderKey x)
          simp at hnone
      | cons y m =>
          rw [List.compareLex_cons_cons]
          rcases (h.head_le hfall).lt_or_eq with hless | hsame
          · have hlt : Binary64.compare x y = .lt := compare_lt_iff_lt.2 hless
            rw [hlt]
            rfl
          · have heq : Binary64.compare x y = .eq := compare_eq_iff_eq.2 hsame
            rw [heq]
            exact ih (h.tail hsame) (List.pairwise_cons.1 hfall).2

/-! ## The order of resources -/

namespace Yardstick

variable {cluster a b : Resource}

theorem pairwise_sortedShares :
    (sortedShares cluster b).Pairwise fun x y => (Binary64.compare y x).isLE := by
  apply List.pairwise_mergeSort
  · intro x y z hxy hyz
    rw [Binary64.isLE_compare_iff] at hxy hyz ⊢
    exact hyz.trans hxy
  · intro x y
    rw [Bool.or_eq_true, Binary64.isLE_compare_iff, Binary64.isLE_compare_iff]
    exact Int.le_total _ _

theorem dominated_sortedShares (hcluster : 0 ≤ cluster) (hab : a ≤ b) :
    Dominated (sortedShares cluster a) (sortedShares cluster b) := by
  have hshares : Dominated (Dimension.all.map fun d => share (a.get d) (cluster.get d))
      (Dimension.all.map fun d => share (b.get d) (cluster.get d)) :=
    dominated_map fun d => orderKey_share_mono (Resource.get_nonneg hcluster d) (hab d)
      (Resource.holds_word64 a d) (Resource.holds_word64 b d) (Resource.holds_word64 cluster d)
  exact hshares.perm (List.mergeSort_perm _ _) (List.mergeSort_perm _ _)

/-- **What fits is not the larger** under the yardstick of shares, whatever dimensions the largest
shares are of. -/
theorem dominant_share_respects_fit (hcluster : 0 ≤ cluster) (hab : a ≤ b) :
    dominantShare.compare cluster a b ≠ .gt := by
  rw [compare_dominantShare]
  exact Ordering.isLE_iff_ne_gt.1
    ((dominated_sortedShares hcluster hab).isLE_compareLex pairwise_sortedShares)

/-- In a cluster without cores the largest share of the first resource is of memory, and that of
the second is of GPU memory. -/
theorem crossed_shares_respect_fit :
    let cluster := Resource.ofAmounts 8000 0 256
    let a := Resource.ofAmounts 4000 3 (-16)
    let b := Resource.ofAmounts 4000 5 200
    0 ≤ cluster ∧ a ≤ b ∧ dominantShare.compare cluster a b ≠ .gt := by
  intro cluster a b
  have hcluster : 0 ≤ cluster := by decide
  have hab : a ≤ b := by decide
  exact ⟨hcluster, hab, dominant_share_respects_fit hcluster hab⟩

end Yardstick

end Allotment
