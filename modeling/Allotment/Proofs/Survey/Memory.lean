import Mathlib.Algebra.Order.BigOperators.Group.List
import Mathlib.Algebra.Order.Ring.Int
import Allotment.Survey
import Allotment.Proofs.Ancestry.Walk

/-!
# The memory of processes

A survey puts the memory of a row down to the process of the row and to its ancestors. The sums are
kept in words, so what is found for a process in the end is the sum of the rows that count for it,
wrapped around. As long as the word holds that sum it is exact, and if the depth does not cut off
any walk, a parent has no less memory than each of its children.
-/

namespace Allotment

theorem Word.wrap_wrap_add {w : Word} {x y : Int} : w.wrap (w.wrap x + y) = w.wrap (x + y) :=
  Int.bmod_add_bmod

namespace Survey

open Status (Listing Row)

variable {tree : Ancestry.Tree} {depth p q tick : Nat} {r : Row} {rows : List Row} {l : Listing}
  {totals : Totals} {m : Std.ExtTreeMap Nat Int} {memory : Int}

/-- The row is that of the process or of one of its descendants, as far as walks go. -/
def CountsFor (tree : Ancestry.Tree) (depth p : Nat) (r : Row) : Prop :=
  p = r.process ∨ p ∈ tree.ancestors r.process depth

instance : Decidable (CountsFor tree depth p r) :=
  inferInstanceAs (Decidable (_ ∨ _))

/-- The memory of all rows that count for a process. -/
def memoryOwed (tree : Ancestry.Tree) (depth p : Nat) (rows : List Row) : Int :=
  ((rows.filter (CountsFor tree depth p ·)).map (·.memory)).sum

theorem memoryOwed_cons : memoryOwed tree depth p (r :: rows) =
    (if CountsFor tree depth p r then r.memory else 0) + memoryOwed tree depth p rows := by
  unfold memoryOwed
  by_cases h : CountsFor tree depth p r <;> simp [h]

theorem memoryOwed_perm {rows' : List Row} (h : rows.Perm rows') :
    memoryOwed tree depth p rows = memoryOwed tree depth p rows' :=
  ((h.filter _).map _).sum_eq

/-! ## Rows taken down one after another -/

theorem getD_foldl_addMemory {processes : List Nat} (h : processes.Nodup) :
    (processes.foldl (fun m p => addMemory m p memory) m).getD p 0 =
      if p ∈ processes then Word.word64.wrap (m.getD p 0 + memory) else m.getD p 0 := by
  induction processes generalizing m with
  | nil => simp
  | cons first processes ih =>
      obtain ⟨hnew, hrest⟩ := List.nodup_cons.1 h
      rw [List.foldl_cons, ih hrest, getD_addMemory]
      by_cases hp : first = p
      · subst hp
        simp [hnew]
      · simp [hp, Ne.symm hp]

theorem getD_addRow : (addRow tree depth m r).getD p 0 =
    if CountsFor tree depth p r then Word.word64.wrap (m.getD p 0 + r.memory)
    else m.getD p 0 := by
  rw [addRow, getD_foldl_addMemory Ancestry.Tree.nodup_cons_ancestors]
  by_cases hr : CountsFor tree depth p r
  · rw [if_pos hr, if_pos (List.mem_cons.2 hr)]
  · rw [if_neg hr, if_neg (mt List.mem_cons.1 hr)]

theorem getD_foldl_addRow (h : Word.word64.Holds (m.getD p 0)) :
    (rows.foldl (addRow tree depth) m).getD p 0 =
      Word.word64.wrap (m.getD p 0 + memoryOwed tree depth p rows) := by
  induction rows generalizing m with
  | nil => simp [memoryOwed, Word.wrap_eq_self h]
  | cons r rows ih =>
      rw [List.foldl_cons, memoryOwed_cons]
      by_cases hr : CountsFor tree depth p r
      · have hstep : (addRow tree depth m r).getD p 0 =
            Word.word64.wrap (m.getD p 0 + r.memory) := by
          rw [getD_addRow, if_pos hr]
        rw [if_pos hr, ih (hstep ▸ Word.holds_wrap), hstep, Word.wrap_wrap_add, Int.add_assoc]
      · have hstep : (addRow tree depth m r).getD p 0 = m.getD p 0 := by
          rw [getD_addRow, if_neg hr]
        rw [if_neg hr, ih (hstep ▸ h), hstep, Int.zero_add]

theorem memoryOfProcess_ofListing : (ofListing tick l totals tree depth).memoryOfProcess p =
    Word.word64.wrap (memoryOwed tree depth p l.rows) := by
  have hzero : (∅ : Std.ExtTreeMap Nat Int).getD p 0 = 0 := Std.ExtTreeMap.getD_empty
  have hsum : (l.rows.foldl (addRow tree depth) ∅).getD p 0 =
      Word.word64.wrap ((∅ : Std.ExtTreeMap Nat Int).getD p 0 + memoryOwed tree depth p l.rows) :=
    getD_foldl_addRow (hzero ▸ Word.holds_zero)
  rwa [hzero, Int.zero_add] at hsum

/-- Each row that counts for a process is in its memory once, whatever the parents are and in
whatever order the rows come. -/
theorem memory_counts_rows_once (tick : Nat) (l : Listing) (totals : Totals)
    (tree : Ancestry.Tree) (depth p : Nat)
    (hfits : Word.word64.Holds (memoryOwed tree depth p l.rows)) :
    let s := ofListing tick l totals tree depth
    s.memoryOfProcess p = ((l.rows.filter fun r =>
        p = r.process ∨ p ∈ tree.ancestors r.process depth).map (·.memory)).sum ∧
      (p ≤ 1 →
        s.memoryOfProcess p = ((l.rows.filter fun r => p = r.process).map (·.memory)).sum) ∧
      ∀ l' : Listing, l'.rows.Perm l.rows →
        (ofListing tick l' totals tree depth).memoryOfProcess p = s.memoryOfProcess p := by
  intro s
  have hexact : s.memoryOfProcess p = memoryOwed tree depth p l.rows := by
    rw [memoryOfProcess_ofListing, Word.wrap_eq_self hfits]
  refine ⟨hexact, fun hp => ?_, fun l' hl' => ?_⟩
  · have hown : ∀ r : Row, CountsFor tree depth p r ↔ p = r.process := by
      intro r
      refine or_iff_left fun hmem => ?_
      have hlt := Ancestry.Tree.one_lt_of_mem_ancestors hmem
      omega
    rw [hexact]
    simp only [memoryOwed, hown]
  · rw [memoryOfProcess_ofListing, memoryOwed_perm hl', hexact, Word.wrap_eq_self hfits]

namespace Sample

/-- Process 42 was started by 50, and 50 and 60 are each other's parent. -/
def parents : Ancestry.Tree :=
  .ofEdges [(42, 50), (50, 60), (60, 50), (70, 1)]

/-- Process 42 is on two devices, and there is a row of its parent and one of a child of init. -/
def listing : Listing where
  rows := [⟨0, 42, .compute, "python", 1100⟩, ⟨1, 42, .compute, "python", 200⟩,
    ⟨0, 50, .graphics, "launcher", 100⟩, ⟨0, 70, .both, "train", 12⟩]
  memory := []
  utilization := []

end Sample

theorem sample_memory_counts_rows_once :
    Word.word64.Holds (memoryOwed Sample.parents 8 60 Sample.listing.rows) ∧
      (ofListing 1 Sample.listing ∅ Sample.parents 8).memoryOfProcess 60 = 1400 := by
  have hfits : Word.word64.Holds (memoryOwed Sample.parents 8 60 Sample.listing.rows) := by decide
  exact ⟨hfits, (memory_counts_rows_once 1 Sample.listing ∅ Sample.parents 8 60 hfits).1⟩

/-! ## Parents and children -/

theorem memoryOwed_nonneg (h : ∀ r ∈ rows, 0 ≤ r.memory) : 0 ≤ memoryOwed tree depth p rows := by
  refine List.sum_nonneg fun x hx => ?_
  obtain ⟨r, hr, rfl⟩ := List.mem_map.1 hx
  exact h r (List.mem_of_mem_filter hr)

theorem memoryOwed_le (h : ∀ r ∈ rows, 0 ≤ r.memory)
    (hcounts : ∀ r, CountsFor tree depth p r → CountsFor tree depth q r) :
    memoryOwed tree depth p rows ≤ memoryOwed tree depth q rows := by
  have hsublist : (rows.filter (CountsFor tree depth p ·)).Sublist
      (rows.filter (CountsFor tree depth q ·)) :=
    List.monotone_filter_right rows fun r hr => by
      simpa using hcounts r (by simpa using hr)
  refine (hsublist.map (·.memory)).sum_le_sum fun x hx => ?_
  obtain ⟨r, hr, rfl⟩ := List.mem_map.1 hx
  exact h r (List.mem_of_mem_filter hr)

/-- A parent has no less memory than each of its children, even where parents go round in circles.
-/
theorem parent_inherits_memory (tick : Nat) (l : Listing) (totals : Totals)
    (tree : Ancestry.Tree) (known : Finset Nat) (depth p q : Nat)
    (hknown : ∀ p, (tree p).isSome → p ∈ known) (hdepth : known.card ≤ depth)
    (hmemory : ∀ r ∈ l.rows, 0 ≤ r.memory) (hparent : tree p = some q) (hlt : 1 < q)
    (hfits : Word.word64.Holds (memoryOwed tree depth q l.rows)) :
    let s := ofListing tick l totals tree depth
    s.memoryOfProcess p ≤ s.memoryOfProcess q := by
  intro s
  have hcounts : ∀ r, CountsFor tree depth p r → CountsFor tree depth q r := by
    intro r hr
    have hmem := Ancestry.Tree.mem_cons_ancestors_of_parent hknown hdepth
      (List.mem_cons.2 hr) hparent hlt
    exact List.mem_cons.1 hmem
  have hle := memoryOwed_le hmemory hcounts
  have hnonneg : 0 ≤ memoryOwed tree depth p l.rows := memoryOwed_nonneg hmemory
  have hfitsChild : Word.word64.Holds (memoryOwed tree depth p l.rows) := by
    simp only [Word.Holds, Word.least] at hfits ⊢
    omega
  rw [memoryOfProcess_ofListing, memoryOfProcess_ofListing, Word.wrap_eq_self hfitsChild,
    Word.wrap_eq_self hfits]
  exact hle

theorem sample_parent_inherits_memory :
    Sample.parents 60 = some 50 ∧
      let s := ofListing 1 Sample.listing ∅ Sample.parents 4
      s.memoryOfProcess 60 ≤ s.memoryOfProcess 50 := by
  have hparent : Sample.parents 60 = some 50 := by decide
  have hknown : ∀ p, (Sample.parents p).isSome → p ∈ ({42, 50, 60, 70} : Finset Nat) := by
    intro p hp
    simp only [Sample.parents, Ancestry.Tree.ofEdges] at hp
    grind
  exact ⟨hparent, parent_inherits_memory 1 Sample.listing ∅ Sample.parents {42, 50, 60, 70} 4 60 50
    hknown (by decide) (by decide) hparent (by decide) (by decide)⟩

end Survey

end Allotment
