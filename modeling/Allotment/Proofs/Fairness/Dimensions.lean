import Mathlib.Data.List.Perm.Subperm
import Allotment.Proofs.Fairness.Preorder

/-!
# Which dimensions count, and in which order

The fair order is made from a list of dimensions. Which of them are in the list decides what the
shares of a contender are, but equal shares stay in the order of the list. So the same dimensions in
another order make the same fair order as long as it does not matter to any contender which of two
equal shares comes first, and otherwise they may not: the first share decides on need.
-/

namespace Allotment

theorem Binary64.eq_of_compare_eq {x y : Float} (h : compare x y = .eq) : x = y :=
  eq_of_orderKey_eq (Std.LawfulEqCmp.eq_of_compare h)

namespace Fairness

variable {ds es : List Dimension} {capacity : Resource} {c : Contender}

/-! ## Dimensions named twice -/

theorem nodup_eraseDups (ds : List Dimension) : ds.eraseDups.Nodup := by
  cases ds with
  | nil => exact List.nodup_nil
  | cons d ds =>
      rw [List.eraseDups_cons, List.nodup_cons]
      refine ⟨?_, nodup_eraseDups _⟩
      simp [List.mem_eraseDups]
termination_by ds.length
decreasing_by
  have hle := List.length_filter_le (fun e => !e == d) ds
  simp only [List.length_cons]
  omega

theorem eraseDups_perm (hsame : ∀ d, d ∈ ds ↔ d ∈ es) : ds.eraseDups.Perm es.eraseDups := by
  rw [List.perm_ext_iff_of_nodup (nodup_eraseDups ds) (nodup_eraseDups es)]
  intro d
  rw [List.mem_eraseDups, List.mem_eraseDups, hsame]

/-! ## Entries in the order of shares -/

/-- The share of the first entry is not less than that of the second. -/
def sharesFall (x y : Dimension × Float) : Bool :=
  (Binary64.compare y.2 x.2).isLE

theorem sharesFall_trans (x y z : Dimension × Float) (hxy : sharesFall x y) (hyz : sharesFall y z) :
    sharesFall x z := by
  unfold sharesFall at hxy hyz ⊢
  exact Std.TransCmp.isLE_trans hyz hxy

theorem sharesFall_total (x y : Dimension × Float) : sharesFall x y || sharesFall y x := by
  have hswap : Binary64.compare x.2 y.2 = (Binary64.compare y.2 x.2).swap :=
    Std.OrientedCmp.eq_swap
  unfold sharesFall
  rw [hswap]
  cases Binary64.compare y.2 x.2 <;> rfl

theorem eq_of_sharesFall {x y : Dimension × Float} (hxy : sharesFall x y) (hyx : sharesFall y x) :
    x.2 = y.2 := by
  unfold sharesFall at hxy hyx
  have hcompare : Binary64.compare x.2 y.2 = .eq := Std.OrientedCmp.isLE_antisymm hyx hxy
  exact Binary64.eq_of_compare_eq hcompare

/-- Entries in the same order of shares tell the same, if what is told follows from the share. -/
theorem map_eq_of_perm {β : Type} {l m : List (Dimension × Float)} {f : Dimension × Float → β}
    (hperm : l.Perm m) (hl : l.Pairwise (sharesFall · ·)) (hm : m.Pairwise (sharesFall · ·))
    (hf : ∀ x ∈ l, ∀ y ∈ m, x.2 = y.2 → f x = f y) : l.map f = m.map f := by
  have hpairs : (l.map fun x => (x.2, f x)) = m.map fun x => (x.2, f x) := by
    let falls (p q : Float × β) : Prop := (Binary64.compare q.1 p.1).isLE
    have hl' : (l.map fun x => (x.2, f x)).Pairwise falls := List.pairwise_map.2 hl
    have hm' : (m.map fun x => (x.2, f x)).Pairwise falls := List.pairwise_map.2 hm
    refine List.Perm.eq_of_pairwise ?_ hl' hm' (hperm.map _)
    intro p q hp hq hpq hqp
    obtain ⟨x, hx, rfl⟩ := List.mem_map.1 hp
    obtain ⟨y, hy, rfl⟩ := List.mem_map.1 hq
    have hshare : x.2 = y.2 := eq_of_sharesFall hpq hqp
    exact Prod.ext hshare (hf x hx y hy hshare)
  simpa [List.map_map, Function.comp_def] using congrArg (List.map Prod.snd) hpairs

/-- The weighted share of a contender in one dimension. -/
def Contender.share (c : Contender) (capacity : Resource) (d : Dimension) : Float :=
  weightedShare (c.usage.get d) (capacity.get d) (c.weights.get d)

/-- The part of its guarantee that a contender uses in one dimension. -/
def Contender.ratio (c : Contender) (d : Dimension) : Float :=
  guaranteeRatio (c.usage.get d) (c.guarantee.get d)

/-- In dimensions of the same share the contender uses the same part of its guarantee. -/
def Contender.TiesAgree (c : Contender) (capacity : Resource) (ds : List Dimension) : Prop :=
  ∀ d ∈ ds, ∀ e ∈ ds, c.share capacity d = c.share capacity e → c.ratio d = c.ratio e

instance : Decidable (c.TiesAgree capacity ds) :=
  inferInstanceAs (Decidable (∀ d ∈ ds, ∀ e ∈ ds, _ → _))

namespace FairOrder

variable {o : FairOrder} {usage : Resource} {w : Weights}

theorem mem_entries {x : Dimension × Float} (hx : x ∈ (o.shares usage w).entries) :
    x.1 ∈ o.dimensions ∧
      x.2 = weightedShare (usage.get x.1) (o.capacity.get x.1) (w.get x.1) := by
  obtain ⟨d, hd, rfl⟩ := List.mem_map.1 (List.mem_mergeSort.1 hx)
  exact ⟨hd, rfl⟩

theorem pairwise_entries : (o.shares usage w).entries.Pairwise (sharesFall · ·) :=
  List.pairwise_mergeSort sharesFall_trans sharesFall_total _

theorem entries_perm (hsame : ∀ d, d ∈ ds ↔ d ∈ es) :
    ((ofDimensions capacity ds).shares usage w).entries.Perm
      ((ofDimensions capacity es).shares usage w).entries := by
  apply (List.mergeSort_perm _ _).trans
  apply List.Perm.trans ?_ (List.mergeSort_perm _ _).symm
  exact (eraseDups_perm hsame).map _

theorem values_eq (hsame : ∀ d, d ∈ ds ↔ d ∈ es) :
    ((ofDimensions capacity ds).shares usage w).values =
      ((ofDimensions capacity es).shares usage w).values :=
  map_eq_of_perm (entries_perm hsame) pairwise_entries pairwise_entries fun _ _ _ _ h => h

/-- Equal shares stay in the order in which the list first names their dimensions. -/
theorem sublist_order {d e : Dimension} (hde : [d, e].Sublist o.dimensions)
    (hshare : weightedShare (usage.get d) (o.capacity.get d) (w.get d) =
      weightedShare (usage.get e) (o.capacity.get e) (w.get e)) :
    [d, e].Sublist (o.shares usage w).order := by
  let entry (d : Dimension) : Dimension × Float :=
    (d, weightedShare (usage.get d) (o.capacity.get d) (w.get d))
  have hle : sharesFall (entry d) (entry e) := by
    change (Binary64.compare (weightedShare _ _ _) (weightedShare _ _ _)).isLE
    rw [hshare]
    exact Std.ReflCmp.isLE_rfl
  have hentries : [entry d, entry e].Sublist (o.shares usage w).entries :=
    List.pair_sublist_mergeSort sharesFall_trans sharesFall_total hle (hde.map entry)
  exact hentries.map Prod.fst

theorem ratios_eq (hsame : ∀ d, d ∈ ds ↔ d ∈ es) (hties : c.TiesAgree capacity ds) :
    ((ofDimensions capacity ds).shares c.usage c.weights).order.map c.ratio =
      ((ofDimensions capacity es).shares c.usage c.weights).order.map c.ratio := by
  unfold Shares.order
  rw [List.map_map, List.map_map]
  apply map_eq_of_perm (entries_perm hsame) pairwise_entries pairwise_entries
  intro x hx y hy hshare
  obtain ⟨hxmem, hxshare⟩ := mem_entries hx
  obtain ⟨hymem, hyshare⟩ := mem_entries hy
  have hxds : x.1 ∈ ds := List.mem_eraseDups.1 hxmem
  have hyds : y.1 ∈ ds := (hsame y.1).2 (List.mem_eraseDups.1 hymem)
  exact hties x.1 hxds y.1 hyds (hxshare.symm.trans (hshare.trans hyshare))

theorem key_eq (hsame : ∀ d, d ∈ ds ↔ d ∈ es) (hties : c.TiesAgree capacity ds) :
    (ofDimensions capacity ds).key c = (ofDimensions capacity es).key c := by
  have hratios := ratios_eq hsame hties
  unfold Contender.ratio at hratios
  simp only [key, hratios, values_eq hsame]

/-- **The order of the dimensions matters to ties only**, and to these only where the parts of the
guarantees that are used differ. -/
theorem same_dimensions_same_order (capacity : Resource) {ds es : List Dimension}
    (hsame : ∀ d, d ∈ ds ↔ d ∈ es) :
    (∀ a b : Contender, a.TiesAgree capacity ds → b.TiesAgree capacity ds →
      (ofDimensions capacity ds).compare a b = (ofDimensions capacity es).compare a b) ∧
    ∀ (usage : Resource) (w : Weights),
      ((ofDimensions capacity ds).shares usage w).entries.Perm
          ((ofDimensions capacity es).shares usage w).entries ∧
        ((ofDimensions capacity ds).shares usage w).values =
          ((ofDimensions capacity es).shares usage w).values ∧
        ∀ d e : Dimension, [d, e].Sublist ds.eraseDups →
          weightedShare (usage.get d) (capacity.get d) (w.get d) =
            weightedShare (usage.get e) (capacity.get e) (w.get e) →
          [d, e].Sublist ((ofDimensions capacity ds).shares usage w).order := by
  refine ⟨fun a b ha hb => ?_, fun usage w => ⟨entries_perm hsame, values_eq hsame, ?_⟩⟩
  · unfold FairOrder.compare
    rw [key_eq hsame ha, key_eq hsame hb]
  · exact fun d e hde hshare => sublist_order hde hshare

namespace Sample

/-- Has half of the memory and half of the cores, and no guarantee. -/
def level : Contender where
  name := "level"
  usage := .ofAmounts 4000 4 0
  guarantee := 0

/-- Has half of the memory and half of the cores: less memory than its guarantee, more cores. -/
def torn : Contender where
  name := "torn"
  usage := .ofAmounts 4000 4 0
  guarantee := .ofAmounts 8000 1 0

end Sample

/-- A tie of shares does not matter without a guarantee, and neither does the order of the
dimensions then. -/
theorem level_same_order :
    Sample.level.share (.ofAmounts 8000 8 256) .cpu =
        Sample.level.share (.ofAmounts 8000 8 256) .memory ∧
      (ofDimensions (.ofAmounts 8000 8 256) [.cpu, .memory, .cpu]).compare Sample.level
          Sample.shortOfCores =
        (ofDimensions (.ofAmounts 8000 8 256) [.memory, .cpu]).compare Sample.level
          Sample.shortOfCores ∧
      [Dimension.cpu, .memory].Sublist
        ((ofDimensions (.ofAmounts 8000 8 256) [.cpu, .memory, .cpu]).shares Sample.level.usage
          Sample.level.weights).order := by
  have hsame : ∀ d : Dimension,
      d ∈ [Dimension.cpu, .memory, .cpu] ↔ d ∈ [Dimension.memory, .cpu] := by
    intro d
    cases d <;> decide
  have htie : Sample.level.share (.ofAmounts 8000 8 256) .cpu =
      Sample.level.share (.ofAmounts 8000 8 256) .memory := by
    decide +kernel
  obtain ⟨hcompare, hshares⟩ :=
    same_dimensions_same_order (.ofAmounts 8000 8 256) hsame
  obtain ⟨_, _, horder⟩ := hshares Sample.level.usage Sample.level.weights
  exact ⟨htie, hcompare Sample.level Sample.shortOfCores (by decide +kernel) (by decide +kernel),
    horder .cpu .memory (by decide) htie⟩

/-- With a guarantee the order of the dimensions decides on need: of equal shares the first named
one is taken for the dominant one. -/
theorem naming_cpu_first_hides_need :
    [Dimension.cpu, .memory].Perm [.memory, .cpu] ∧
      (ofDimensions (.ofAmounts 8000 8 256) [.memory, .cpu]).compare Sample.torn
        Sample.served = .lt ∧
      (ofDimensions (.ofAmounts 8000 8 256) [.cpu, .memory]).compare Sample.torn
        Sample.served = .gt ∧
      Sample.torn.share (.ofAmounts 8000 8 256) .cpu =
        Sample.torn.share (.ofAmounts 8000 8 256) .memory ∧
      ((ofDimensions (.ofAmounts 8000 8 256) [.cpu, .memory]).shares Sample.torn.usage
        Sample.torn.weights).order = [.cpu, .memory] := by
  have hcanonical : (ofDimensions (.ofAmounts 8000 8 256) [.memory, .cpu]).dimensions =
      [.memory, .cpu] := by decide
  have hcpuFirst : (ofDimensions (.ofAmounts 8000 8 256) [.cpu, .memory]).dimensions =
      [.cpu, .memory] := by decide
  refine ⟨.swap _ _ _, ?_, ?_, by decide +kernel, ?_⟩
  · simp only [FairOrder.compare, key, shares, hcanonical, List.map_cons, List.map_nil,
      mergeSort_pair]
    decide +kernel
  · simp only [FairOrder.compare, key, shares, hcpuFirst, List.map_cons, List.map_nil,
      mergeSort_pair]
    decide +kernel
  · simp only [shares, hcpuFirst, List.map_cons, List.map_nil, mergeSort_pair]
    decide +kernel

end FairOrder

end Fairness

end Allotment
