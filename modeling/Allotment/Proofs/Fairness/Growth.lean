import Allotment.Proofs.Binary64.Division
import Allotment.Proofs.Fairness.Dimensions
import Allotment.Proofs.Yardstick.Domination

/-!
# What more usage does to the place of a contender

No weighted share and no used part of a guarantee gets smaller when a contender is given more. So
the shares, from the largest down, speak for the contender that has less. Need does not: it is told
by the dimension of the largest share, and more usage may make another share the largest, one of
which less of the guarantee is used. That is the only way to get ahead by using more.
-/

namespace Allotment.Fairness

open Binary64 (Nonnegative orderKey)

/-! ## Amounts of one dimension -/

section Amounts

variable {a b total : ℤ}

theorem orderKey_weightedShare_mono {weight : Float} (hpos : 0.0 < weight)
    (hfinite : Binary64.kind weight = .finite) (htotal : 0 < total) (htotalLt : total < 2 ^ 64)
    (hnonneg : 0 ≤ a) (hab : a ≤ b) (hlt : b < 2 ^ 64) :
    orderKey (weightedShare a total weight) ≤ orderKey (weightedShare b total weight) := by
  obtain ⟨_, _, _, hweight⟩ := Binary64.exists_unpack_of_positive hpos hfinite
  obtain ⟨_, _, _, htotal'⟩ := Binary64.exists_unpack_ofInt htotal htotalLt
  have ha := Binary64.nonnegative_ofInt hnonneg (hab.trans_lt hlt)
  have hb := Binary64.nonnegative_ofInt (hnonneg.trans hab) hlt
  have hweighted := Binary64.orderKey_div_mono hweight ha hb
    (Binary64.orderKey_ofInt_mono hnonneg hab hlt)
  unfold weightedShare
  simp only [Binary64.not_le_zero hweight, htotal.ne', if_false]
  exact Binary64.orderKey_div_mono htotal' (Binary64.nonnegative_div hweight ha)
    (Binary64.nonnegative_div hweight hb) hweighted

theorem nonnegative_guaranteeRatio (hnonneg : 0 ≤ a) (hlt : a < 2 ^ 64)
    (htotalLt : total < 2 ^ 64) : Nonnegative (guaranteeRatio a total) := by
  unfold guaranteeRatio
  split
  · exact Binary64.nonnegative_infinity
  · obtain ⟨_, _, _, htotal⟩ := Binary64.exists_unpack_ofInt (a := total) (by omega) htotalLt
    exact Binary64.nonnegative_div htotal (Binary64.nonnegative_ofInt hnonneg hlt)

theorem orderKey_guaranteeRatio_mono (hnonneg : 0 ≤ a) (hab : a ≤ b) (hlt : b < 2 ^ 64)
    (htotalLt : total < 2 ^ 64) :
    orderKey (guaranteeRatio a total) ≤ orderKey (guaranteeRatio b total) := by
  unfold guaranteeRatio
  split
  · exact le_rfl
  · exact Binary64.orderKey_quotient_mono (by omega) htotalLt hab (by omega) hlt

end Amounts

/-! ## The first difference -/

theorem compareShares_cons (x y : Float) (l m : List Float) :
    compareShares (x :: l) (y :: m) = (Binary64.compare x y).then (compareShares l m) :=
  List.compareLex_cons_cons

theorem compareShares_eq_gt_iff {l m : List Float} (hlength : l.length = m.length) :
    compareShares l m = .gt ↔
      ∃ (k : ℕ) (x y : Float), l.take k = m.take k ∧ l[k]? = some x ∧ m[k]? = some y ∧
        orderKey y < orderKey x := by
  induction l generalizing m with
  | nil =>
      cases m with
      | nil => simp [compareShares, List.compareLex]
      | cons y m => simp at hlength
  | cons x l ih =>
      cases m with
      | nil => simp at hlength
      | cons y m =>
          have htail : l.length = m.length := by simpa using hlength
          rw [compareShares_cons, Ordering.then_eq_gt, ih htail]
          constructor
          · rintro (hgt | ⟨heq, k, x', y', htake, hx, hy, hlt⟩)
            · exact ⟨0, x, y, rfl, rfl, rfl, compare_gt_iff_gt.1 hgt⟩
            · rw [Binary64.eq_of_compare_eq heq]
              exact ⟨k + 1, x', y', by simp [htake], hx, hy, hlt⟩
          · rintro ⟨k, x', y', htake, hx, hy, hlt⟩
            cases k with
            | zero =>
                simp only [List.getElem?_cons_zero, Option.some.injEq] at hx hy
                subst hx hy
                exact .inl (compare_gt_iff_gt.2 hlt)
            | succ k =>
                simp only [List.take_succ_cons, List.cons.injEq] at htake
                obtain ⟨rfl, htake⟩ := htake
                exact .inr ⟨Std.ReflCmp.compare_self, k, x', y', htake, hx, hy, hlt⟩

namespace FairOrder

variable {o : FairOrder} {a b c : Contender} {usage usage' : Resource} {w : Weights}

/-! ## Keys -/

/-- The dimensions that count, from the largest share of a contender down. -/
def ranked (o : FairOrder) (c : Contender) : List Dimension :=
  (o.shares c.usage c.weights).order

/-- The used parts of the guarantees of a contender, in the order of its shares. -/
def ratios (o : FairOrder) (c : Contender) : List Float :=
  (o.ranked c).map c.ratio

/-- The contender uses less than its guarantee in the dimension of its largest share. -/
def needy (o : FairOrder) (c : Contender) : Bool :=
  (o.ranked c).head?.any fun d => c.ratio d < 1.0

/-- Up to place `k` two contenders use the same parts of their guarantees, each read in the order of
its own shares. There the second reads the dimension `e` and uses less of its guarantee than the
first, who reads `d`. -/
structure FirstLower (o : FairOrder) (a b : Contender) (k : ℕ) (d e : Dimension) : Prop where
  same : (o.ratios a).take k = (o.ratios b).take k
  left : (o.ranked a)[k]? = some d
  right : (o.ranked b)[k]? = some e
  lower : b.ratio e < a.ratio d

theorem key_spec (c : Contender) : o.key c =
    ⟨if o.needy c then some (o.ratios c) else none, (o.shares c.usage c.weights).values⟩ := by
  unfold key needy ratios ranked
  dsimp only
  cases (o.shares c.usage c.weights).order <;> rfl

theorem length_ranked : (o.ranked c).length = o.dimensions.length := by
  simp [ranked, Shares.order, shares]

theorem length_ratios : (o.ratios c).length = o.dimensions.length := by
  rw [ratios, List.length_map, length_ranked]

theorem getElem?_ratios (k : ℕ) : (o.ratios c)[k]? = ((o.ranked c)[k]?).map c.ratio := by
  rw [ratios, List.getElem?_map]

theorem values_perm : (o.shares usage w).values.Perm
    (o.dimensions.map fun d => weightedShare (usage.get d) (o.capacity.get d) (w.get d)) := by
  have hperm := (List.mergeSort_perm (o.dimensions.map fun d =>
    (d, weightedShare (usage.get d) (o.capacity.get d) (w.get d))) sharesFall).map Prod.snd
  rw [List.map_map] at hperm
  exact hperm

theorem pairwise_values :
    (o.shares usage w).values.Pairwise fun x y => (Binary64.compare y x).isLE :=
  List.pairwise_map.2 pairwise_entries

/-- If the usage of one contender fits in that of another of the same weights, its shares are not
the greater. -/
theorem isLE_compareShares_of_le (hcapacity : ∀ d, 0 < o.capacity.get d)
    (hweights : ∀ d, 0.0 < w.get d ∧ Binary64.kind (w.get d) = .finite) (hnonneg : 0 ≤ usage)
    (hle : usage ≤ usage') :
    (compareShares (o.shares usage w).values (o.shares usage' w).values).isLE := by
  have hdominated : Dominated
      (o.dimensions.map fun d => weightedShare (usage.get d) (o.capacity.get d) (w.get d))
      (o.dimensions.map fun d => weightedShare (usage'.get d) (o.capacity.get d) (w.get d)) := by
    apply dominated_map
    intro d
    have hcapacityLt := (o.capacity.holds_word64 d).2
    have hlt := (usage'.holds_word64 d).2
    simp only [Word.greatest] at hcapacityLt hlt
    exact orderKey_weightedShare_mono (hweights d).1 (hweights d).2 (hcapacity d) (by omega)
      (Resource.get_nonneg hnonneg d) (hle d) (by omega)
  exact (hdominated.perm values_perm values_perm).isLE_compareLex pairwise_values

/-! ## Ratios -/

theorem nonnegative_ratio (hnonneg : 0 ≤ c.usage) (d : Dimension) : Nonnegative (c.ratio d) := by
  have husage := (c.usage.holds_word64 d).2
  have hguarantee := (c.guarantee.holds_word64 d).2
  simp only [Word.greatest] at husage hguarantee
  exact nonnegative_guaranteeRatio (Resource.get_nonneg hnonneg d) (by omega) (by omega)

theorem ratio_lt_one_iff (hnonneg : 0 ≤ c.usage) {d : Dimension} :
    c.ratio d < 1.0 ↔ orderKey (c.ratio d) < orderKey 1.0 :=
  Binary64.lt_iff_orderKey_lt (nonnegative_ratio hnonneg d) Binary64.nonnegative_one

theorem ratio_not_lt (hsame : a.guarantee = b.guarantee) (hnonneg : 0 ≤ a.usage)
    (hle : a.usage ≤ b.usage) (d : Dimension) : ¬b.ratio d < a.ratio d := by
  have husage := (b.usage.holds_word64 d).2
  have hguarantee := (b.guarantee.holds_word64 d).2
  simp only [Word.greatest] at husage hguarantee
  have hb : 0 ≤ b.usage := fun d => (hnonneg d).trans (hle d)
  rw [Binary64.lt_iff_orderKey_lt (nonnegative_ratio hb d) (nonnegative_ratio hnonneg d), not_lt]
  unfold Contender.ratio
  rw [hsame]
  exact orderKey_guaranteeRatio_mono (Resource.get_nonneg hnonneg d) (hle d) (by omega) (by omega)

theorem compareShares_ratios_eq_gt_iff (ha : 0 ≤ a.usage) (hb : 0 ≤ b.usage) :
    compareShares (o.ratios a) (o.ratios b) = .gt ↔ ∃ k d e, o.FirstLower a b k d e := by
  have hlower (d e : Dimension) :=
    Binary64.lt_iff_orderKey_lt (nonnegative_ratio hb e) (nonnegative_ratio ha d)
  rw [compareShares_eq_gt_iff (length_ratios.trans length_ratios.symm)]
  constructor
  · rintro ⟨k, x, y, htake, hx, hy, hlt⟩
    obtain ⟨d, hd, rfl⟩ := Option.map_eq_some_iff.1 (getElem?_ratios k ▸ hx)
    obtain ⟨e, he, rfl⟩ := Option.map_eq_some_iff.1 (getElem?_ratios k ▸ hy)
    exact ⟨k, d, e, htake, hd, he, (hlower d e).2 hlt⟩
  · rintro ⟨k, d, e, htake, hd, he, hlt⟩
    have hx : (o.ratios a)[k]? = some (a.ratio d) := by rw [getElem?_ratios, hd, Option.map_some]
    have hy : (o.ratios b)[k]? = some (b.ratio e) := by rw [getElem?_ratios, he, Option.map_some]
    exact ⟨k, a.ratio d, b.ratio e, htake, hx, hy, (hlower d e).1 hlt⟩

/-- The needy are ahead of all others by the first of their ratios. -/
theorem compareShares_ratios_of_needy (ha : 0 ≤ a.usage) (hb : 0 ≤ b.usage) (hneedy : o.needy b)
    (hnot : ¬o.needy a) : compareShares (o.ratios a) (o.ratios b) = .gt := by
  have hlength : (o.ranked a).length = (o.ranked b).length :=
    length_ranked.trans length_ranked.symm
  unfold needy at hneedy hnot
  unfold ratios
  cases hrb : o.ranked b with
  | nil => simp [hrb] at hneedy
  | cons e es =>
      cases hra : o.ranked a with
      | nil => simp [hra, hrb] at hlength
      | cons d ds =>
          have hbelow : b.ratio e < 1.0 := by simpa [hrb] using hneedy
          have habove : ¬a.ratio d < 1.0 := by simpa [hra] using hnot
          rw [ratio_lt_one_iff hb] at hbelow
          rw [ratio_lt_one_iff ha, not_lt] at habove
          have hgt : Binary64.compare (a.ratio d) (b.ratio e) = .gt :=
            compare_gt_iff_gt.2 (hbelow.trans_le habove)
          rw [List.map_cons, List.map_cons, compareShares_cons, hgt]
          rfl

/-- Who has the smaller shares is behind only if the other one is needy, and by the ratios. -/
theorem compare_eq_gt_iff (ha : 0 ≤ a.usage) (hb : 0 ≤ b.usage)
    (hshares : (compareShares (o.shares a.usage a.weights).values
      (o.shares b.usage b.weights).values).isLE) :
    o.compare a b = .gt ↔ o.needy b ∧ compareShares (o.ratios a) (o.ratios b) = .gt := by
  have hshares := Ordering.isLE_iff_ne_gt.1 hshares
  unfold FairOrder.compare
  rw [key_spec, key_spec]
  by_cases hneedy : o.needy b
  · by_cases hneedy' : o.needy a
    · simp [Key.compare, hneedy, hneedy', Ordering.then_eq_gt, hshares]
    · simp [Key.compare, hneedy, hneedy', compareShares_ratios_of_needy ha hb hneedy hneedy']
  · by_cases hneedy' : o.needy a
    · simp [Key.compare, hneedy, hneedy']
    · simp [Key.compare, hneedy, hneedy', hshares]

/-- **More usage gets ahead by need alone.** Who uses more comes first just if he is needy and the
first part of the guarantee in which the two differ, each read in the order of his own shares, is
the lower one. -/
theorem more_usage_gets_ahead_by_need_alone (ds : List Dimension) {capacity : Resource}
    {a b : Contender} (hcapacity : ∀ d, 0 < capacity.get d)
    (hweights : ∀ d, 0.0 < a.weights.get d ∧ Binary64.kind (a.weights.get d) = .finite)
    (hsame : a.guarantee = b.guarantee ∧ a.weights = b.weights)
    (husage : 0 ≤ a.usage ∧ a.usage ≤ b.usage) :
    let o := ofDimensions capacity ds
    (o.compare a b = .gt ↔ o.needy b ∧ ∃ k d e, o.FirstLower a b k d e) ∧
      (∀ k d e, o.FirstLower a b k d e → d ≠ e) ∧
      (¬o.needy b ∨ o.ranked a = o.ranked b → o.compare a b ≠ .gt) := by
  intro o
  obtain ⟨hguarantee, hweight⟩ := hsame
  obtain ⟨ha, hle⟩ := husage
  have hb : 0 ≤ b.usage := fun d => (ha d).trans (hle d)
  have hshares : (compareShares (o.shares a.usage a.weights).values
      (o.shares b.usage b.weights).values).isLE :=
    hweight ▸ isLE_compareShares_of_le (o := o) hcapacity hweights ha hle
  have hiff : o.compare a b = .gt ↔ o.needy b ∧ ∃ k d e, o.FirstLower a b k d e := by
    rw [compare_eq_gt_iff ha hb hshares, compareShares_ratios_eq_gt_iff ha hb]
  have hcrossed (k : ℕ) (d e : Dimension) (hlower : o.FirstLower a b k d e) : d ≠ e := by
    rintro rfl
    exact ratio_not_lt hguarantee ha hle d hlower.lower
  refine ⟨hiff, hcrossed, ?_⟩
  rintro hstays hgt
  obtain ⟨hneedy, k, d, e, hlower⟩ := hiff.1 hgt
  rcases hstays with hnot | hranked
  · exact hnot hneedy
  · have hdims : some d = some e := by rw [← hlower.left, hranked, hlower.right]
    exact hcrossed k d e hlower (Option.some.inj hdims)

namespace Sample

/-- Of memory, its largest share, it has half of its guarantee. -/
def halfServed : Contender where
  name := "half served"
  usage := .ofAmounts 3000 2 0
  guarantee := .ofAmounts 6000 0 100
  weights := ⟨0.5, 2.0, 1.0⟩

/-- Its largest share is of GPU memory now, of which it has more than its guarantee. -/
def wellServed : Contender :=
  { halfServed with usage := .ofAmounts 3000 8 256 }

/-- As many cores are guaranteed as there are, but its largest share is of memory. -/
def guaranteedCores : Contender where
  name := "guaranteed cores"
  usage := .ofAmounts 4000 1 0
  guarantee := .ofAmounts 0 8 0

/-- It has got more cores, but not all that are guaranteed, and they are its largest share now. -/
def moreCores : Contender :=
  { guaranteedCores with usage := .ofAmounts 4000 5 0 }

end Sample

/-- The largest share becomes one of another dimension, in which there is no need. -/
theorem wellServed_not_ahead :
    Sample.halfServed.usage ≤ Sample.wellServed.usage ∧
      (ofDimensions (.ofAmounts 8000 8 256) Dimension.all).needy Sample.halfServed ∧
      (ofDimensions (.ofAmounts 8000 8 256) Dimension.all).compare Sample.halfServed
        Sample.wellServed ≠ .gt := by
  have hdimensions : (ofDimensions (.ofAmounts 8000 8 256) Dimension.all).dimensions =
      [.memory, .cpu, .gpuMemory] := by decide
  have hneedy : (ofDimensions (.ofAmounts 8000 8 256) Dimension.all).needy Sample.halfServed := by
    simp only [needy, ranked, shares, hdimensions, List.map_cons, List.map_nil,
      Yardstick.mergeSort_triple]
    decide +kernel
  have hnot : ¬(ofDimensions (.ofAmounts 8000 8 256) Dimension.all).needy Sample.wellServed := by
    simp only [needy, ranked, shares, hdimensions, List.map_cons, List.map_nil,
      Yardstick.mergeSort_triple]
    decide +kernel
  have hcapacity : ∀ d, 0 < (Resource.ofAmounts 8000 8 256).get d := by
    intro d
    cases d <;> decide
  have hweights : ∀ d, 0.0 < Sample.halfServed.weights.get d ∧
      Binary64.kind (Sample.halfServed.weights.get d) = .finite := by
    intro d
    cases d <;> decide +kernel
  have hle : Sample.halfServed.usage ≤ Sample.wellServed.usage := by decide
  obtain ⟨_, _, hstays⟩ := more_usage_gets_ahead_by_need_alone (a := Sample.halfServed)
    (b := Sample.wellServed) Dimension.all hcapacity hweights ⟨rfl, rfl⟩ ⟨by decide, hle⟩
  exact ⟨hle, hneedy, hstays (.inl hnot)⟩

/-- More cores make cores the dimension that tells about need, and there the guarantee is not
reached yet. -/
theorem moreCores_gets_ahead :
    (∀ d, 0 < (Resource.ofAmounts 8000 8 256).get d) ∧
      Sample.guaranteedCores.weights = .neutral ∧ Sample.moreCores.weights = .neutral ∧
      Sample.guaranteedCores.guarantee = Sample.moreCores.guarantee ∧
      0 ≤ Sample.guaranteedCores.usage ∧
      Sample.guaranteedCores.usage ≤ Sample.moreCores.usage ∧
      (ofDimensions (.ofAmounts 8000 8 256) [.memory, .cpu]).compare Sample.guaranteedCores
        Sample.moreCores = .gt := by
  have hdimensions : (ofDimensions (.ofAmounts 8000 8 256) [.memory, .cpu]).dimensions =
      [.memory, .cpu] := by decide
  have hcapacity : ∀ d, 0 < (Resource.ofAmounts 8000 8 256).get d := by
    intro d
    cases d <;> decide
  refine ⟨hcapacity, rfl, rfl, rfl, by decide, by decide, ?_⟩
  simp only [FairOrder.compare, key, shares, hdimensions, List.map_cons, List.map_nil,
    mergeSort_pair]
  decide +kernel

end FairOrder

end Allotment.Fairness
