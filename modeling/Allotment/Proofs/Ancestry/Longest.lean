import Mathlib.Logic.Relation
import Allotment.Proofs.Ancestry.Walk

/-!
# The longest chain of ancestors

The ancestors of a process are the longest chain that can be climbed from it within the given
length. They are also what a walk has passed that is taken step by step until there is no step left,
and it is the circles among the parents, not the given length, that keep this walk from being longer
than there are processes with a known parent.
-/

namespace Allotment.Ancestry

namespace Tree

variable {tree : Tree} {met chain : List Nat} {current start depth d p : Nat}

/-- The longest chain above a process that has no more than `depth` processes. -/
structure IsLongestChain (tree : Tree) (start depth : Nat) (chain : List Nat) : Prop where
  climbs : tree.Climbs [start] start chain
  length_le : chain.length ≤ depth
  longest : ∀ other, tree.Climbs [start] start other → other.length ≤ depth →
    other.length ≤ chain.length

theorem isLongestChain_iff :
    tree.IsLongestChain p depth chain ↔ tree.ancestors p depth = chain := by
  constructor
  · intro h
    have hbegins := h.climbs.prefix_walk h.length_le
    have hle := h.longest _ climbs_walk length_walk_le
    exact (hbegins.eq_of_length_le hle).symm
  · rintro rfl
    exact ⟨climbs_walk, length_walk_le, fun _ h hlength => (h.prefix_walk hlength).length_le⟩

theorem walk_eq_take (hd : d ≤ depth) :
    tree.walk met current d = (tree.walk met current depth).take d := by
  induction depth generalizing met current d with
  | zero => simp [Nat.le_zero.1 hd, walk]
  | succ depth ih =>
      cases d with
      | zero => simp [walk]
      | succ d =>
          cases hnext : tree.next? met current with
          | none => simp [walk, hnext]
          | some parent => simp [walk, hnext, ih (Nat.le_of_succ_le_succ hd)]

/-! ## Step by step -/

/-- A walk under way: the process it has come to and all those it has passed, nearest first. -/
structure Underway where
  current : Nat
  passed : List Nat

/-- One step of the walk from `start`; there is none when the walk is over. -/
def Underway.step? (tree : Tree) (start depth : Nat) (w : Underway) : Option Underway :=
  if w.passed.length < depth then
    ((tree w.current).filter fun parent => 1 < parent ∧ parent ≠ start ∧ parent ∉ w.passed).map
      fun parent => ⟨parent, w.passed ++ [parent]⟩
  else none

/-- The walk from `start` gets from the one point to the other. -/
def Leads (tree : Tree) (start depth : Nat) : Underway → Underway → Prop :=
  Relation.ReflTransGen fun w next => w.step? tree start depth = some next

theorem Underway.step?_of_lt {w : Underway} (h : w.passed.length < depth) :
    w.step? tree start depth = (tree.next? (w.passed.reverse ++ [start]) w.current).map
      fun parent => ⟨parent, w.passed ++ [parent]⟩ := by
  have hfresh : ∀ parent, (1 < parent ∧ parent ≠ start ∧ parent ∉ w.passed) ↔
      (1 < parent ∧ parent ∉ w.passed.reverse ++ [start]) := by
    intro parent
    rw [List.mem_append, List.mem_reverse, List.mem_singleton, not_or]
    constructor
    · exact fun ⟨hlt, hstart, hnew⟩ => ⟨hlt, hnew, hstart⟩
    · exact fun ⟨hlt, hnew, hstart⟩ => ⟨hlt, hstart, hnew⟩
  simp only [step?, h, if_true, next?, hfresh]

/-- The walk comes to an end, and it has passed then what is found from here on by a walk that may
be as long as this one still may. -/
theorem exists_leads_walk {w : Underway} {remaining : Nat}
    (h : w.passed.length + remaining = depth) :
    ∃ last, tree.Leads start depth w last ∧ last.step? tree start depth = none ∧
      last.passed =
        w.passed ++ tree.walk (w.passed.reverse ++ [start]) w.current remaining := by
  -- what the walk has met is at any time what it has passed, last one first, and the start
  induction remaining generalizing w with
  | zero => exact ⟨w, .refl, by simp [Underway.step?, ← h], by simp [walk]⟩
  | succ remaining ih =>
      have hstep : w.step? tree start depth = _ := Underway.step?_of_lt (by omega)
      cases hnext : tree.next? (w.passed.reverse ++ [start]) w.current with
      | none => exact ⟨w, .refl, by rw [hstep, hnext]; rfl, by simp [walk, hnext]⟩
      | some parent =>
          rw [hnext] at hstep
          obtain ⟨last, hleads, hend, hpassed⟩ :=
            ih (w := ⟨parent, w.passed ++ [parent]⟩) (by simp; omega)
          refine ⟨last, hleads.head hstep, hend, ?_⟩
          rw [hpassed]
          simp [walk, hnext]

/-- **The ancestors are the longest chain.** Whatever the parents are, the walk ends with the
longest chain of at most `depth` processes, and a shorter walk finds the beginning of it. -/
theorem ancestors_are_longest_chain (tree : Tree) (p depth : Nat) :
    (∃ last, tree.Leads p depth ⟨p, []⟩ last ∧ last.step? tree p depth = none ∧
      last.passed = tree.ancestors p depth) ∧
    (∀ chain, tree.IsLongestChain p depth chain ↔ tree.ancestors p depth = chain) ∧
    (tree.ancestors p depth).Nodup ∧
    p ∉ tree.ancestors p depth ∧ 0 ∉ tree.ancestors p depth ∧ 1 ∉ tree.ancestors p depth ∧
    ((tree.ancestors p depth).length : ℕ∞) ≤ {q | (tree q).isSome}.encard ∧
    ∀ d ≤ depth, tree.ancestors p d = (tree.ancestors p depth).take d := by
  have hclimbs : tree.Climbs [p] p (tree.ancestors p depth) := climbs_walk
  refine ⟨?_, fun _ => isLongestChain_iff, hclimbs.nodup, ?_, ?_, ?_, ?_, ?_⟩
  · exact exists_leads_walk (w := ⟨p, []⟩) (Nat.zero_add depth)
  · exact fun hmem => hclimbs.not_mem_met p hmem (List.mem_singleton_self p)
  · exact fun hmem => absurd (hclimbs.one_lt 0 hmem) (by decide)
  · exact fun hmem => absurd (hclimbs.one_lt 1 hmem) (by decide)
  · exact hclimbs.length_le_encard (List.mem_singleton_self p)
  · exact fun d hd => walk_eq_take hd

/-- Parents that go round in a circle into which the walk comes from outside. -/
def Sample.circle : Tree :=
  .ofEdges [(5, 6), (6, 7), (7, 8), (8, 6), (9, 1)]

theorem circle_ends_walk :
    Sample.circle.IsLongestChain 5 18446744073709551615 [6, 7, 8] ∧
      2 ≤ 18446744073709551615 ∧ Sample.circle.ancestors 5 2 = [6, 7] := by
  have hfound : Sample.circle.ancestors 5 18446744073709551615 = [6, 7, 8] := by decide
  obtain ⟨-, hlongest, -, -, -, -, -, htake⟩ :=
    ancestors_are_longest_chain Sample.circle 5 18446744073709551615
  refine ⟨(hlongest _).2 hfound, by decide, ?_⟩
  rw [htake 2 (by decide), hfound]
  rfl

end Tree

end Allotment.Ancestry
