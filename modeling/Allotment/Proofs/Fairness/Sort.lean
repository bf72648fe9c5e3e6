import Mathlib.Data.List.Sort
import Allotment.Proofs.Fairness.Preorder
import Allotment.Proofs.Fairness.Reorder

/-!
# Sorting by the fair order is stable

The positions are sorted by keys that are worked out once, and the contenders are brought into that
order in place. What comes out is the stable merge sort of the contenders by the order itself, so
nobody is lost, nobody comes after whom he precedes, and who is level stays as he came. Who else is
there makes no difference to this: sorting some of the contenders leaves a part of what sorting all
of them leaves.
-/

namespace Allotment.Fairness

/-! ## Part of a stable sort -/

section MergeSort

variable {α : Type} {le : α → α → Bool}

/-- A stable sort puts an element behind those it does not precede. -/
theorem mergeSort_cons_eq_filter (trans : ∀ a b c, le a b → le b c → le a c)
    (total : ∀ a b, le a b || le b a) (a : α) (l : List α) :
    (a :: l).mergeSort le =
      (l.mergeSort le).filter (!le a ·) ++ a :: (l.mergeSort le).filter (le a ·) := by
  obtain ⟨before, after, hcons, hrest, hbefore⟩ := List.mergeSort_cons trans total a l
  have hsorted : (before ++ a :: after).Pairwise (le · ·) :=
    hcons ▸ List.pairwise_mergeSort trans total (a :: l)
  have hafter : ∀ b ∈ after, le a b :=
    (List.pairwise_cons.1 (List.pairwise_append.1 hsorted).2.1).1
  have hnot : ∀ b ∈ before, ¬le a b := by
    intro b hb
    simpa using hbefore b hb
  have hkeep : before.filter (!le a ·) = before :=
    List.filter_eq_self.2 fun b hb => by simpa using hbefore b hb
  have hdrop : after.filter (!le a ·) = [] :=
    List.filter_eq_nil_iff.2 fun b hb => by simp [hafter b hb]
  rw [hcons, hrest, List.filter_append, List.filter_append, hkeep, hdrop,
    List.filter_eq_nil_iff.2 hnot, List.filter_eq_self.2 hafter, List.append_nil, List.nil_append]

/-- Where some elements come in a stable sort does not depend on the others. -/
theorem sublist_mergeSort_mergeSort (trans : ∀ a b c, le a b → le b c → le a c)
    (total : ∀ a b, le a b || le b a) {part all : List α} (h : part.Sublist all) :
    (part.mergeSort le).Sublist (all.mergeSort le) := by
  induction h with
  | slnil => exact List.Sublist.refl _
  | cons a _ ih =>
      obtain ⟨before, after, hcons, hrest, _⟩ := List.mergeSort_cons trans total a _
      rw [hcons]
      rw [hrest] at ih
      exact ih.trans ((List.sublist_cons_self a after).append_left before)
  | cons_cons a _ ih =>
      rw [mergeSort_cons_eq_filter trans total, mergeSort_cons_eq_filter trans total]
      exact (ih.filter _).append ((ih.filter _).cons_cons a)

end MergeSort

namespace FairOrder

variable {o : FairOrder} {items : Array Contender} {a b c : Contender}

theorem isLE_compare_trans (a b c : Contender) (hab : (o.compare a b).isLE)
    (hbc : (o.compare b c).isLE) : (o.compare a c).isLE :=
  Std.TransCmp.isLE_trans hab hbc

theorem isLE_compare_total (a b : Contender) :
    (o.compare a b).isLE || (o.compare b a).isLE := by
  have hswap : o.compare b a = (o.compare a b).swap := Std.OrientedCmp.eq_swap
  rw [hswap]
  cases o.compare a b <;> rfl

/-- Compares what is found at two positions. -/
def compareFound (o : FairOrder) : Option Contender → Option Contender → Ordering
  | some a, some b => o.compare a b
  | _, _ => .eq

theorem compareAt_map_key (i j : Nat) :
    compareAt (items.map o.key) i j = o.compareFound items[i]? items[j]? := by
  unfold compareAt
  rw [Array.getElem?_map, Array.getElem?_map]
  cases items[i]? with
  | none => rfl
  | some a => cases items[j]? <;> rfl

/-- Sorting in place by keys is the stable sort by the order. -/
theorem toList_sort :
    (o.sort items).toList = items.toList.mergeSort fun a b => (o.compare a b).isLE := by
  let leFound (x y : Option Contender) : Bool := (o.compareFound x y).isLE
  let order := (List.range items.size).mergeSort fun i j =>
    (compareAt (items.map o.key) i j).isLE
  have horder : order.toArray.toList.Perm (List.range items.size) := List.mergeSort_perm _ _
  have hfound : order.map (items[·]?) =
      ((List.range items.size).map (items[·]?)).mergeSort leFound := by
    apply List.map_mergeSort
    intro i _ j _
    rw [compareAt_map_key]
  have hrange : (List.range items.size).map (items[·]?) = items.toList.map some := by
    apply List.ext_getElem?
    intro i
    by_cases hi : i < items.size
    · simp [hi]
    · simp [hi]
  have hsome : (items.toList.mergeSort fun a b => (o.compare a b).isLE).map some =
      (items.toList.map some).mergeSort leFound :=
    List.map_mergeSort fun _ _ _ _ => rfl
  -- positions and contenders meet in what is found at a position, so both sides are mapped to that
  apply List.map_injective_iff.2 (Option.some_injective _)
  calc (o.sort items).toList.map some
      = order.map (items[·]?) := map_some_toList_reorder horder
    _ = (items.toList.map some).mergeSort leFound := by rw [hfound, hrange]
    _ = (items.toList.mergeSort fun a b => (o.compare a b).isLE).map some := hsome.symm

/-- The contenders in the order in which they are served, each with the place at which it came. -/
def placed (o : FairOrder) (items : Array Contender) : List (Contender × Nat) :=
  items.toList.zipIdx.mergeSort (List.zipIdxLE fun a b => (o.compare a b).isLE)

theorem map_fst_placed : (o.placed items).map (·.1) = (o.sort items).toList := by
  rw [placed, List.mergeSort_zipIdx, toList_sort]

theorem placed_perm : (o.placed items).Perm items.toList.zipIdx :=
  List.mergeSort_perm _ _

/-- Nobody comes before who precedes him, or is level with him and came earlier. -/
theorem pairwise_placed : (o.placed items).Pairwise fun x y =>
    o.compare x.1 y.1 = .lt ∨ o.compare x.1 y.1 = .eq ∧ x.2 < y.2 := by
  have hsorted : (o.placed items).Pairwise fun x y =>
      List.zipIdxLE (fun a b => (o.compare a b).isLE) x y :=
    List.pairwise_mergeSort (List.zipIdxLE_trans isLE_compare_trans)
      (List.zipIdxLE_total isLE_compare_total) _
  have hplaces : (o.placed items).Pairwise fun x y => x.2 ≠ y.2 := by
    apply List.pairwise_map.1
    rw [(placed_perm.map (·.2)).pairwise_iff fun h => h.symm, List.zipIdx_map_snd]
    exact List.nodup_range'
  apply (hsorted.and hplaces).imp
  rintro x y ⟨hle, hne⟩
  have hswap : o.compare y.1 x.1 = (o.compare x.1 y.1).swap := Std.OrientedCmp.eq_swap
  cases hxy : o.compare x.1 y.1 with
  | lt => exact .inl rfl
  | eq =>
      have hplace : x.2 ≤ y.2 := by simpa [List.zipIdxLE, hswap, hxy] using hle
      exact .inr ⟨rfl, by omega⟩
  | gt => simp [List.zipIdxLE, hxy] at hle

/-- **Sorting is stable**, by every fair order and of any number of contenders, and so is the
reordering in place by which it is done. -/
theorem sort_is_stable (o : FairOrder) (items : Array Contender) :
    (o.sort items).toList.Perm items.toList ∧
    (o.sort items).toList.Pairwise (fun a b => o.compare a b ≠ .gt) ∧
    (∃ placed : List (Contender × Nat), placed.Perm items.toList.zipIdx ∧
      placed.map (·.1) = (o.sort items).toList ∧
      placed.Pairwise fun x y =>
        o.compare x.1 y.1 = .lt ∨ o.compare x.1 y.1 = .eq ∧ x.2 < y.2) ∧
    (∀ part : Array Contender, part.toList.Sublist items.toList →
      (o.sort part).toList.Sublist (o.sort items).toList) ∧
    ∀ {α : Type} (xs : Array α) (order : Array Nat), order.toList.Perm (List.range xs.size) →
      (∀ s, SettlesAll (List.range xs.size) (xs, targets order) s ↔
        s = (reorder xs order, Array.range xs.size)) ∧
      ∀ i : Nat, (reorder xs order)[i]? = order[i]?.bind (xs[·]?) := by
  refine ⟨?_, ?_, ⟨o.placed items, placed_perm, map_fst_placed, pairwise_placed⟩, ?_, ?_⟩
  · rw [toList_sort]
    exact List.mergeSort_perm _ _
  · rw [toList_sort]
    apply (List.pairwise_mergeSort isLE_compare_trans isLE_compare_total items.toList).imp
    exact fun hle => Ordering.isLE_iff_ne_gt.1 hle
  · intro part hpart
    rw [toList_sort, toList_sort]
    exact sublist_mergeSort_mergeSort isLE_compare_trans isLE_compare_total hpart
  · intro α xs order horder
    have hwalk := settlesAll_reorder horder
    refine ⟨fun s => ⟨fun hs => hs.unique hwalk, ?_⟩, getElem?_reorder horder⟩
    rintro rfl
    exact hwalk

/-- Two of three contenders come as they do without the third, and four letters are brought into an
order that moves them round in one cycle. -/
theorem sample_sort_is_stable :
    (Sample.order.sort #[Sample.served, Sample.shortOfMemory]).toList.Sublist
        (Sample.order.sort
          #[Sample.served, Sample.shortOfCores, Sample.shortOfMemory]).toList ∧
      [2, 0, 3, 1].Perm (List.range 4) ∧
      SettlesAll (List.range 4) (#["a", "b", "c", "d"], targets #[2, 0, 3, 1])
        (reorder #["a", "b", "c", "d"] #[2, 0, 3, 1], Array.range 4) ∧
      (reorder #["a", "b", "c", "d"] #[2, 0, 3, 1])[2]? = some "d" := by
  obtain ⟨_, _, _, hpart, hreorder⟩ := sort_is_stable Sample.order
    #[Sample.served, Sample.shortOfCores, Sample.shortOfMemory]
  have hperm : [2, 0, 3, 1].Perm (List.range 4) := by decide
  obtain ⟨hends, hplaces⟩ := hreorder #["a", "b", "c", "d"] #[2, 0, 3, 1] hperm
  exact ⟨hpart #[Sample.served, Sample.shortOfMemory] (.cons_cons _ (.cons _ (.refl _))), hperm,
    (hends _).2 rfl, hplaces 2⟩

end FairOrder

end Allotment.Fairness
