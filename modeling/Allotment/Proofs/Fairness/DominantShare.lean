import Allotment.Fairness.Order
import Allotment.Proofs.Binary64.Quotient
import Allotment.Proofs.Yardstick.Preorder

/-!
# The fair order without weights and guarantees

Contenders of neutral weight to whom nothing is guaranteed are never needy, and their weighted
shares are their shares. So the fair order over all dimensions is then the order of what they use
under the yardstick of dominant shares.
-/

namespace Allotment.Fairness

variable {capacity : Resource} {c : Contender}

/-! ## Shares without weights -/

theorem Weights.get_neutral (d : Dimension) : Weights.neutral.get d = 1.0 := by
  cases d <;> rfl

theorem weightedShare_one (usage : Int) {capacity : Int} (hcapacity : capacity ≠ 0) :
    weightedShare usage capacity 1.0 = share usage capacity := by
  have hweight : ¬(1.0 : Float) ≤ 0.0 := by decide
  unfold weightedShare share
  rw [if_neg hweight, if_neg hcapacity, if_neg hcapacity, Binary64.div_one]

namespace FairOrder

theorem dimensions_ofCapacity : (ofCapacity capacity).dimensions = Dimension.all := by
  change Dimension.all.eraseDups = Dimension.all
  decide

/-- Sorting the shares along with their dimensions gives the sorted shares. -/
theorem values_neutral (hcapacity : ∀ d, capacity.get d ≠ 0) (usage : Resource) :
    ((ofCapacity capacity).shares usage .neutral).values =
      Resource.sortedShares capacity usage := by
  have hshare (d : Dimension) :
      weightedShare (usage.get d) (capacity.get d) (Weights.neutral.get d) =
        share (usage.get d) (capacity.get d) := by
    rw [Weights.get_neutral, weightedShare_one _ (hcapacity d)]
  unfold Shares.values shares Resource.sortedShares
  rw [List.map_mergeSort (s := fun x y => (Binary64.compare y x).isLE) fun _ _ _ _ => rfl,
    dimensions_ofCapacity, List.map_map]
  simp only [Function.comp_def, hshare, ofCapacity, ofDimensions]

/-! ## Nobody is needy -/

theorem guaranteeRatio_of_nonpos (usage : Int) {guarantee : Int} (hguarantee : guarantee ≤ 0) :
    guaranteeRatio usage guarantee = Binary64.infinity :=
  if_pos hguarantee

theorem key_neutral (hcapacity : ∀ d, capacity.get d ≠ 0) (hweights : c.weights = .neutral)
    (hguarantee : c.guarantee ≤ 0) :
    (ofCapacity capacity).key c = ⟨none, Resource.sortedShares capacity c.usage⟩ := by
  have hratio (d : Dimension) : guaranteeRatio (c.usage.get d) (c.guarantee.get d) =
      Binary64.infinity := by
    have hnonpos := hguarantee d
    rw [Resource.get_zero] at hnonpos
    exact guaranteeRatio_of_nonpos _ hnonpos
  have hinfinity : ¬Binary64.infinity < 1.0 := by decide
  unfold key
  rw [hweights]
  simp only [hratio, values_neutral hcapacity]
  cases (ofCapacity capacity).shares c.usage .neutral |>.order with
  | nil => rfl
  | cons d ds => simp [hinfinity]

/-- **Two orders by dominant share agree.** Contenders of neutral weight without guarantees are in
the order in which the yardstick puts what they use. -/
theorem fair_order_is_dominant_share (hcapacity : ∀ d, capacity.get d ≠ 0) {a b : Contender}
    (hweights : a.weights = .neutral ∧ b.weights = .neutral)
    (hguarantees : a.guarantee ≤ 0 ∧ b.guarantee ≤ 0) :
    (ofCapacity capacity).compare a b =
      Yardstick.dominantShare.compare capacity a.usage b.usage := by
  unfold FairOrder.compare
  rw [key_neutral hcapacity hweights.1 hguarantees.1,
    key_neutral hcapacity hweights.2 hguarantees.2, Yardstick.compare_dominantShare]
  rfl

namespace Sample

/-- Its largest share is of cores; of memory it gives more back than it takes. -/
def lender : Contender where
  name := "lender"
  usage := .ofAmounts (-4000) 5 16
  guarantee := .ofAmounts (-1) 0 0

/-- Its largest share is of memory. -/
def borrower : Contender where
  name := "borrower"
  usage := .ofAmounts 6000 1 0
  guarantee := 0

end Sample

/-- The cluster owes GPU memory, and the guarantee of one contender is below zero. -/
theorem lender_before_borrower :
    let capacity := Resource.ofAmounts 8000 8 (-256)
    (∀ d, capacity.get d ≠ 0) ∧ Sample.lender.guarantee ≤ 0 ∧ Sample.borrower.guarantee ≤ 0 ∧
      (ofCapacity capacity).compare Sample.lender Sample.borrower = .lt := by
  intro capacity
  have hcapacity : ∀ d, capacity.get d ≠ 0 := by
    intro d
    cases d <;> decide
  have hlender : Sample.lender.guarantee ≤ 0 := by decide
  have hborrower : Sample.borrower.guarantee ≤ 0 := by decide
  refine ⟨hcapacity, hlender, hborrower, ?_⟩
  rw [fair_order_is_dominant_share hcapacity ⟨rfl, rfl⟩ ⟨hlender, hborrower⟩]
  simp only [Yardstick.compare_dominantShare, Resource.sortedShares, Dimension.all, List.map_cons,
    List.map_nil, Yardstick.mergeSort_triple]
  decide +kernel

end FairOrder

end Allotment.Fairness
