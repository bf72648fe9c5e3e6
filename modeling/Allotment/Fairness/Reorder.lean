/-!
# Rearranging an array

`reorder items order` brings the element from position `order[i]` to position `i`. It works in
place: whatever stands at a position is swapped to where it belongs until the position has its own
element. Every swap settles a position for good, so as many swaps as there are elements suffice.
-/

namespace Allotment.Fairness

def targets (order : Array Nat) : Array Nat :=
  order.zipIdx.foldl (fun t (source, position) => t.setIfInBounds source position)
    (Array.replicate order.size 0)

/-- Swaps what stands at position `i` to its target, until `i` is itself the target of what stands
there or the given number of swaps is used up. -/
def settle {α : Type} (i : Nat) : (swaps : Nat) → Array α × Array Nat → Array α × Array Nat
  | 0, s => s
  | swaps + 1, (items, target) =>
    match target[i]? with
    | none => (items, target)
    | some j =>
      if j = i then (items, target)
      else settle i swaps (items.swapIfInBounds i j, target.swapIfInBounds i j)

/-- The elements in the given order of their positions. -/
def reorder {α : Type} (items : Array α) (order : Array Nat) : Array α :=
  ((List.range items.size).foldl (fun s i => settle i items.size s) (items, targets order)).1

@[simp] theorem size_settle {α : Type} {i swaps : Nat} {items : Array α} {target : Array Nat} :
    (settle i swaps (items, target)).1.size = items.size := by
  induction swaps generalizing items target with
  | zero => rfl
  | succ swaps ih =>
    simp only [settle]
    split
    · rfl
    · split
      · rfl
      · rw [ih, Array.size_swapIfInBounds]

end Allotment.Fairness
