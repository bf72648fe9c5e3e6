import Allotment.Yardstick

/-!
# Counting containers

How many times one resource goes into another is found by division in each dimension that counts
and is asked for, and the least quotient is the answer. It is the greatest number of copies that
fit: any number up to it fits, copy by copy in exact integers, and no number beyond it that a word
can hold. A resource that asks for nothing fits as often as a word can tell.
-/

namespace Allotment.Yardstick

variable {y : Yardstick} {available required : Resource} {d : Dimension} {n : Int}

/-! ## The least quotient -/

theorem le_foldl_min_iff {greatest : Int} {quotients : List Int} :
    n ≤ quotients.foldl Min.min greatest ↔ n ≤ greatest ∧ ∀ q ∈ quotients, n ≤ q := by
  induction quotients generalizing greatest with
  | nil => simp
  | cons q quotients ih =>
      rw [List.foldl_cons, ih, Int.le_min, List.forall_mem_cons, and_assoc]

/-- Copies fit in one dimension as long as the quotient counts them. -/
theorem le_tdiv_iff (havailable : 0 ≤ available) (hrequired : 0 ≤ required)
    (hasked : required.get d ≠ 0) :
    n ≤ (available.get d).tdiv (required.get d) ↔ n * required.get d ≤ available.get d := by
  have hnonneg := Resource.get_nonneg hrequired d
  have hpos : 0 < required.get d := by omega
  rw [Int.tdiv_eq_ediv_of_nonneg (Resource.get_nonneg havailable d)]
  exact Int.le_ediv_iff_mul_le hpos

theorem holds_quotient (havailable : 0 ≤ available) (hrequired : 0 ≤ required) :
    Word.word64.Holds ((available.get d).tdiv (required.get d)) := by
  have hnonneg := Resource.get_nonneg havailable d
  have hle : (available.get d).tdiv (required.get d) ≤ available.get d :=
    Int.tdiv_le_self _ hnonneg
  have hzero : 0 ≤ (available.get d).tdiv (required.get d) :=
    Int.tdiv_nonneg hnonneg (Resource.get_nonneg hrequired d)
  have hword := (Resource.holds_word64 available d).2
  have hleast : Word.word64.least ≤ 0 := by decide
  exact ⟨by omega, by omega⟩

/-! ## The answer -/

/-- Of resources that are not below zero every quotient is held by the word. -/
theorem containers?_eq (havailable : 0 ≤ available) (hrequired : 0 ≤ required) :
    y.containers? available required = some
      (((y.dimensions.filter fun d => required.get d ≠ 0).map fun d =>
        (available.get d).tdiv (required.get d)).foldl Min.min Word.word64.greatest) := by
  have hquotients (ds : List Dimension) :
      (ds.mapM fun d =>
        let q := (available.get d).tdiv (required.get d)
        if Word.word64.Holds q then some q else none) =
      some (ds.map fun d => (available.get d).tdiv (required.get d)) := by
    induction ds with
    | nil => rfl
    | cons d ds ih =>
        rw [List.mapM_cons, ih]
        simp [holds_quotient havailable hrequired]
  unfold containers?
  rw [hquotients]
  rfl

theorem exists_containers? (havailable : 0 ≤ available) (hrequired : 0 ≤ required) :
    ∃ count, y.containers? available required = some count ∧
      ∀ n ≤ Word.word64.greatest,
        (∀ d ∈ y.dimensions, n * required.get d ≤ available.get d) ↔ n ≤ count := by
  refine ⟨_, containers?_eq havailable hrequired, fun n hn => ?_⟩
  rw [le_foldl_min_iff, and_iff_right hn]
  simp only [List.forall_mem_map, List.mem_filter, decide_eq_true_eq, and_imp]
  apply forall_congr'
  intro d
  apply imp_congr_right
  intro _
  by_cases hasked : required.get d = 0
  · have hnonneg := Resource.get_nonneg havailable d
    simp [hasked, hnonneg]
  · simp [hasked, le_tdiv_iff havailable hrequired hasked]

/-- **The greatest number of copies that fit** is what each yardstick counts: in every dimension
under the yardstick of shares, in memory under that of memory. -/
theorem containers_count_copies (havailable : 0 ≤ available) (hrequired : 0 ≤ required) :
    (∃ count, dominantShare.containers? available required = some count ∧
      ∀ n, 0 ≤ n → n ≤ Word.word64.greatest →
        ((∀ d, n * required.get d ≤ available.get d) ↔ n ≤ count)) ∧
    ∃ count, memoryOnly.containers? available required = some count ∧
      ∀ n, 0 ≤ n → n ≤ Word.word64.greatest →
        (n * required.memory ≤ available.memory ↔ n ≤ count) := by
  constructor
  · obtain ⟨count, hcount, hcopies⟩ :=
      exists_containers? (y := dominantShare) havailable hrequired
    refine ⟨count, hcount, fun n _ hn => ?_⟩
    rw [← hcopies n hn]
    exact ⟨fun h d _ => h d, fun h d => h d d.mem_all⟩
  · obtain ⟨count, hcount, hcopies⟩ := exists_containers? (y := memoryOnly) havailable hrequired
    refine ⟨count, hcount, fun n _ hn => ?_⟩
    rw [← hcopies n hn]
    exact ⟨fun h d hd => (List.mem_singleton.1 hd) ▸ h, fun h => h .memory List.mem_cons_self⟩

/-- GPU memory is what runs out, and the cores that are not asked for are of no account. -/
theorem sample_containers_count_copies :
    let available := Resource.ofAmounts 4096 0 512
    let required := Resource.ofAmounts 1024 0 200
    0 ≤ available ∧ 0 ≤ required ∧ dominantShare.containers? available required = some 2 ∧
      (∀ d, 2 * required.get d ≤ available.get d) ∧ (¬∀ d, 3 * required.get d ≤ available.get d) ∧
      4 * required.memory ≤ available.memory := by
  intro available required
  have havailable : 0 ≤ available := by decide
  have hrequired : 0 ≤ required := by decide
  have htwo : dominantShare.containers? available required = some 2 := by decide
  have hfour : memoryOnly.containers? available required = some 4 := by decide
  obtain ⟨⟨count, hcount, hcopies⟩, inMemory, hinMemory, hmemory⟩ :=
    containers_count_copies havailable hrequired
  obtain rfl : count = 2 := Option.some.inj (hcount.symm.trans htwo)
  obtain rfl : inMemory = 4 := Option.some.inj (hinMemory.symm.trans hfour)
  refine ⟨havailable, hrequired, htwo, ?_, ?_, ?_⟩
  · exact (hcopies 2 (by decide) (by decide)).2 (by decide)
  · intro hfit
    exact absurd ((hcopies 3 (by decide) (by decide)).1 hfit) (by decide)
  · exact (hmemory 4 (by decide) (by decide)).2 (by decide)

end Allotment.Yardstick
