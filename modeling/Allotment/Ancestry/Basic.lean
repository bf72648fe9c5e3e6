/-!
# Ancestry

The ancestors of a process are found by going from parent to parent. The walk ends where no parent
is known, before the first two process numbers, which stand for the kernel and for the init process,
and before a process that has been met already.
-/

namespace Allotment.Ancestry

abbrev Tree := Nat → Option Nat

/-- The next step of a walk from `current`: its parent, unless the walk ends there. -/
def Tree.next? (tree : Tree) (met : List Nat) (current : Nat) : Option Nat :=
  (tree current).filter fun parent => 1 < parent ∧ parent ∉ met

/-- The processes of a walk of at most `depth` steps from `current`. -/
def Tree.walk (tree : Tree) (met : List Nat) (current : Nat) : (depth : Nat) → List Nat
  | 0 => []
  | depth + 1 =>
    match tree.next? met current with
    | none => []
    | some parent => parent :: tree.walk (parent :: met) parent depth

/-- The ancestors of a process, nearest first, at most `depth` of them. -/
def Tree.ancestors (tree : Tree) (process depth : Nat) : List Nat :=
  tree.walk [process] process depth

/-- The tree of a list of processes with their parents; of two entries for a process the later one
counts. -/
def Tree.ofEdges (edges : List (Nat × Nat)) : Tree :=
  fun process => edges.reverse.lookup process

theorem Tree.length_walk_le {tree : Tree} {met : List Nat} {current depth : Nat} :
    (tree.walk met current depth).length ≤ depth := by
  induction depth generalizing met current with
  | zero => simp [Tree.walk]
  | succ depth ih =>
    simp only [Tree.walk]
    split
    · simp
    · simpa using ih

end Allotment.Ancestry
