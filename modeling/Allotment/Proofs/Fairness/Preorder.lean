import Allotment.Fairness.Order

/-!
# The fair order is a total preorder

Each contender brings its own order of the dimensions, so at one position of two keys there may be
shares of different dimensions, and whether ratios count at all depends on both contenders.
Nevertheless any three contenders are in order: a key is compared by its need and then by its
shares, and each of these is in a total preorder, the lack of need coming after every need.
-/

namespace Allotment.Fairness

theorem transCmp_on {α β : Type} (cmp : β → β → Ordering) [Std.TransCmp cmp] (f : α → β) :
    Std.TransCmp fun a b => cmp (f a) (f b) where
  eq_swap := Std.OrientedCmp.eq_swap
  isLE_trans := Std.TransCmp.isLE_trans

instance : Std.TransCmp compareShares :=
  inferInstanceAs (Std.TransCmp (List.compareLex Binary64.compare))

/-! ## Needs -/

/-- Any need comes before none. -/
def compareNeed : Option (List Float) → Option (List Float) → Ordering
  | some _, none => .lt
  | none, some _ => .gt
  | some x, some y => compareShares x y
  | none, none => .eq

theorem compareNeed_eq_swap {x y : Option (List Float)} :
    compareNeed x y = (compareNeed y x).swap := by
  cases x with
  | none => cases y <;> rfl
  | some x =>
      cases y with
      | none => rfl
      | some y =>
          change compareShares x y = (compareShares y x).swap
          exact Std.OrientedCmp.eq_swap

theorem isLE_compareNeed_trans {x y z : Option (List Float)} (hxy : (compareNeed x y).isLE)
    (hyz : (compareNeed y z).isLE) : (compareNeed x z).isLE := by
  cases x with
  | none =>
      cases y with
      | none => exact hyz
      | some y => contradiction
  | some x =>
      cases z with
      | none => rfl
      | some z =>
          -- what stands between two needs is a need, so all three are compared by their ratios
          cases y with
          | none => contradiction
          | some y =>
              have hxy : (compareShares x y).isLE := hxy
              change (compareShares x z).isLE
              exact Std.TransCmp.isLE_trans hxy hyz

instance : Std.TransCmp compareNeed where
  eq_swap := compareNeed_eq_swap
  isLE_trans := isLE_compareNeed_trans

/-! ## Keys and contenders -/

theorem Key.compare_eq_compareLex :
    Key.compare = compareLex (fun a b => compareNeed a.need b.need)
      fun a b => compareShares a.shares b.shares := by
  funext ⟨x, s⟩ ⟨y, t⟩
  cases x <;> cases y <;> rfl

instance : Std.TransCmp Key.compare := by
  have hneed := transCmp_on compareNeed Key.need
  have hshares := transCmp_on compareShares Key.shares
  rw [Key.compare_eq_compareLex]
  infer_instance

namespace FairOrder

instance (o : FairOrder) : Std.TransCmp o.compare :=
  transCmp_on Key.compare o.key

/-- **The fair order is a total preorder**, whatever the capacity and the dimensions that count, and
whatever the contenders hold, are guaranteed and weigh. -/
theorem compare_is_total_preorder (capacity : Resource) (dimensions : List Dimension)
    (a b c : Contender) :
    let compare := (ofDimensions capacity dimensions).compare
    compare a a = .eq ∧ compare a b = (compare b a).swap ∧
      (compare a b ≠ .gt → compare b c ≠ .gt →
        compare a c ≠ .gt ∧ (compare a b = .lt ∨ compare b c = .lt → compare a c = .lt)) ∧
      (compare a b = .eq → compare b c = .eq → compare a c = .eq) := by
  intro compare
  refine ⟨Std.ReflCmp.compare_self, Std.OrientedCmp.eq_swap, fun hab hbc => ?_,
    Std.TransCmp.eq_trans⟩
  have hab : (compare a b).isLE := Ordering.isLE_iff_ne_gt.2 hab
  have hbc : (compare b c).isLE := Ordering.isLE_iff_ne_gt.2 hbc
  constructor
  · exact Ordering.isLE_iff_ne_gt.1 (Std.TransCmp.isLE_trans hab hbc)
  · rintro (hlt | hlt)
    · exact Std.TransCmp.lt_of_lt_of_isLE hlt hbc
    · exact Std.TransCmp.lt_of_isLE_of_lt hab hlt

namespace Sample

/-- Two dimensions count, the one named twice only once. -/
def order : FairOrder :=
  ofDimensions (.ofAmounts 8000 8 256) [.cpu, .memory, .cpu]

/-- Needy in cores, the dimension of which it has the greater share. -/
def shortOfCores : Contender where
  name := "short of cores"
  usage := .ofAmounts 2000 5 0
  guarantee := .ofAmounts 0 6 0

/-- Further below its guarantee, in memory. -/
def shortOfMemory : Contender where
  name := "short of memory"
  usage := .ofAmounts 6000 3 0
  guarantee := .ofAmounts 8000 1 0

/-- Not needy, although its shares are the smallest. -/
def served : Contender where
  name := "served"
  usage := .ofAmounts 10 1 0
  guarantee := 0

end Sample

theorem mergeSort_pair {α : Type} {le : α → α → Bool} {x y : α} :
    [x, y].mergeSort le = if le x y then [x, y] else [y, x] := by
  unfold List.mergeSort
  simp [List.MergeSort.Internal.splitInTwo, List.merge]

/-- Of three contenders the dominant dimensions differ, and one is not needy. -/
theorem sample_compare_is_total_preorder :
    Sample.order.compare Sample.shortOfMemory Sample.shortOfCores = .lt ∧
      Sample.order.compare Sample.shortOfCores Sample.served = .lt ∧
      Sample.order.compare Sample.shortOfMemory Sample.served = .lt := by
  have hdimensions : Sample.order.dimensions = [.cpu, .memory] := by decide
  have hfirst : Sample.order.compare Sample.shortOfMemory Sample.shortOfCores = .lt := by
    simp only [FairOrder.compare, key, shares, hdimensions, List.map_cons, List.map_nil,
      mergeSort_pair]
    decide +kernel
  have hsecond : Sample.order.compare Sample.shortOfCores Sample.served = .lt := by
    simp only [FairOrder.compare, key, shares, hdimensions, List.map_cons, List.map_nil,
      mergeSort_pair]
    decide +kernel
  obtain ⟨_, _, htrans, _⟩ := compare_is_total_preorder (.ofAmounts 8000 8 256)
    [.cpu, .memory, .cpu] Sample.shortOfMemory Sample.shortOfCores Sample.served
  have hne : ∀ {x : Ordering}, x = .lt → x ≠ .gt := by
    rintro _ rfl
    decide
  exact ⟨hfirst, hsecond, (htrans (hne hfirst) (hne hsecond)).2 (.inl hfirst)⟩

end FairOrder

end Allotment.Fairness
