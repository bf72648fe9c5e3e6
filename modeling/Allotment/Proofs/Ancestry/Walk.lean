import Mathlib.Data.Set.Card
import Allotment.Ancestry.Basic

/-!
# Walks from parent to parent

Above a process stand its parent, the parent of that and so on, and there is no end to this where
parents go round in circles. A walk climbs as much of it as is without the first two processes and
without any process twice. If it may be as long as there are processes with a known parent, its
length never ends it: then the parent of a process on the walk is on the walk as well, or has been
met before.
-/

namespace Allotment.Ancestry.Tree

variable {tree : Tree} {met chain : List Nat} {current parent start depth p q : Nat}

/-- The process `n` steps above another one, where it is known. -/
def above? (tree : Tree) (process : Nat) : (n : Nat) → Option Nat
  | 0 => some process
  | n + 1 => (tree.above? process n).bind tree

theorem above?_succ (n : Nat) :
    tree.above? p (n + 1) = (tree p).bind fun parent => tree.above? parent n := by
  induction n with
  | zero => simp [above?]
  | succ n ih =>
      rw [above?, ih, Option.bind_assoc]
      rfl

theorem next?_eq_some_iff : tree.next? met current = some parent ↔
    tree current = some parent ∧ 1 < parent ∧ parent ∉ met := by
  simp [next?, Option.filter_eq_some_iff]

/-- The chain begins what stands above `current`, and a walk that has met `met` can climb it. -/
structure Climbs (tree : Tree) (met : List Nat) (current : Nat) (chain : List Nat) : Prop where
  getElem?_eq : ∀ n < chain.length, chain[n]? = tree.above? current (n + 1)
  one_lt : ∀ q ∈ chain, 1 < q
  not_mem_met : ∀ q ∈ chain, q ∉ met
  nodup : chain.Nodup

theorem climbs_nil : tree.Climbs met current [] :=
  ⟨by simp, by simp, by simp, List.nodup_nil⟩

theorem climbs_cons_iff : tree.Climbs met current (parent :: chain) ↔
    tree.next? met current = some parent ∧ tree.Climbs (parent :: met) parent chain := by
  rw [next?_eq_some_iff]
  constructor
  · intro h
    have hparent : tree current = some parent := by
      have hfirst := h.getElem?_eq 0 (by simp)
      rw [above?_succ] at hfirst
      simpa [above?] using hfirst.symm
    obtain ⟨hnew, hnodup⟩ := List.nodup_cons.1 h.nodup
    refine ⟨⟨hparent, h.one_lt parent (by simp), h.not_mem_met parent (by simp)⟩, ?_, ?_, ?_,
      hnodup⟩
    · intro n hn
      have hnext := h.getElem?_eq (n + 1) (by simpa using hn)
      rwa [List.getElem?_cons_succ, above?_succ, hparent] at hnext
    · exact fun q hq => h.one_lt q (List.mem_cons_of_mem parent hq)
    · intro q hq hmet
      rcases List.mem_cons.1 hmet with rfl | hmet
      · exact hnew hq
      · exact h.not_mem_met q (List.mem_cons_of_mem parent hq) hmet
  · rintro ⟨⟨hparent, hlt, hnew⟩, h⟩
    have hrest : ∀ q ∈ chain, q ≠ parent ∧ q ∉ met := fun q hq => by
      simpa using h.not_mem_met q hq
    refine ⟨?_, ?_, ?_, ?_⟩
    · intro n hn
      rw [above?_succ, hparent, Option.bind_some]
      cases n with
      | zero => rfl
      | succ n => exact h.getElem?_eq n (by simpa using hn)
    · simpa [hlt] using h.one_lt
    · simpa [hnew] using fun q hq => (hrest q hq).2
    · exact List.nodup_cons.2 ⟨fun hmem => (hrest parent hmem).1 rfl, h.nodup⟩

theorem climbs_walk : tree.Climbs met current (tree.walk met current depth) := by
  induction depth generalizing met current with
  | zero => exact climbs_nil
  | succ depth ih =>
      cases hnext : tree.next? met current with
      | none => simpa [walk, hnext] using climbs_nil
      | some parent => simpa [walk, hnext] using climbs_cons_iff.2 ⟨hnext, ih⟩

/-- A chain that is no longer than the walk may be is the beginning of the walk. -/
theorem Climbs.prefix_walk (h : tree.Climbs met current chain) (hlength : chain.length ≤ depth) :
    chain <+: tree.walk met current depth := by
  induction depth generalizing met current chain with
  | zero => simp [List.eq_nil_of_length_eq_zero (Nat.le_zero.1 hlength)]
  | succ depth ih =>
      cases chain with
      | nil => exact List.nil_prefix
      | cons parent chain =>
          obtain ⟨hnext, hrest⟩ := climbs_cons_iff.1 h
          simp only [walk, hnext, List.cons_prefix_cons, true_and]
          exact ih hrest (Nat.le_of_succ_le_succ hlength)

/-- A process counts for itself and for each of its ancestors once. -/
theorem nodup_cons_ancestors : (p :: tree.ancestors p depth).Nodup := by
  have hclimbs : tree.Climbs [p] p (tree.ancestors p depth) := climbs_walk
  refine List.nodup_cons.2 ⟨fun hmem => ?_, hclimbs.nodup⟩
  exact hclimbs.not_mem_met p hmem (List.mem_singleton_self p)

theorem one_lt_of_mem_ancestors (hq : q ∈ tree.ancestors p depth) : 1 < q :=
  climbs_walk.one_lt q hq

/-! ## Walks that are long enough -/

/-- Only the last process of a chain may be without a known parent. -/
theorem Climbs.isSome_of_mem_dropLast (h : tree.Climbs met current chain)
    (hp : p ∈ (current :: chain).dropLast) : (tree p).isSome := by
  induction chain generalizing met current with
  | nil => simp at hp
  | cons parent chain ih =>
      obtain ⟨hnext, hrest⟩ := climbs_cons_iff.1 h
      rw [List.dropLast_cons_cons, List.mem_cons] at hp
      rcases hp with rfl | hp
      · exact (next?_eq_some_iff.1 hnext).1 ▸ rfl
      · exact ih hrest hp

theorem Climbs.length_le_encard (h : tree.Climbs met current chain) (hmet : current ∈ met) :
    (chain.length : ℕ∞) ≤ {p | (tree p).isSome}.encard := by
  have hnodup : (current :: chain).dropLast.Nodup := by
    have hstart : current ∉ chain := fun hmem => h.not_mem_met current hmem hmet
    exact (List.nodup_cons.2 ⟨hstart, h.nodup⟩).sublist (List.dropLast_sublist _)
  have hcard : (current :: chain).dropLast.toFinset.card = chain.length := by
    simp [List.toFinset_card_of_nodup hnodup]
  rw [← hcard, ← Set.encard_coe_eq_coe_finsetCard]
  refine Set.encard_le_encard fun p hp => ?_
  exact h.isSome_of_mem_dropLast (List.mem_toFinset.1 hp)

/-- The parent of a process on a chain has been met, is on the chain, or goes on with it. -/
theorem Climbs.parent_cases (h : tree.Climbs met current chain) (hp : p ∈ current :: chain)
    (hq : tree p = some q) (hlt : 1 < q) :
    q ∈ met ∨ q ∈ chain ∨ tree.Climbs met current (chain ++ [q]) := by
  induction chain generalizing met current with
  | nil =>
      obtain rfl : p = current := List.mem_singleton.1 hp
      by_cases hmet : q ∈ met
      · exact .inl hmet
      · exact .inr (.inr (climbs_cons_iff.2 ⟨next?_eq_some_iff.2 ⟨hq, hlt, hmet⟩, climbs_nil⟩))
  | cons parent chain ih =>
      obtain ⟨hnext, hrest⟩ := climbs_cons_iff.1 h
      rcases List.mem_cons.1 hp with rfl | hp
      · have hparent := (next?_eq_some_iff.1 hnext).1
        obtain rfl : parent = q := Option.some.inj (hparent.symm.trans hq)
        exact .inr (.inl List.mem_cons_self)
      · rcases ih hrest hp with hmem | hmem | hlonger
        · rcases List.mem_cons.1 hmem with rfl | hmem
          · exact .inr (.inl List.mem_cons_self)
          · exact .inl hmem
        · exact .inr (.inl (List.mem_cons_of_mem parent hmem))
        · exact .inr (.inr (climbs_cons_iff.2 ⟨hnext, hlonger⟩))

/-- Whatever counts for a process counts for its parent as well. -/
theorem mem_cons_ancestors_of_parent {known : Finset Nat}
    (hknown : ∀ p, (tree p).isSome → p ∈ known) (hdepth : known.card ≤ depth)
    (hp : p ∈ start :: tree.ancestors start depth) (hq : tree p = some q) (hlt : 1 < q) :
    q ∈ start :: tree.ancestors start depth := by
  have hclimbs : tree.Climbs [start] start (tree.ancestors start depth) := climbs_walk
  rcases hclimbs.parent_cases hp hq hlt with hmem | hmem | hlonger
  · exact List.mem_cons.2 (.inl (List.mem_singleton.1 hmem))
  · exact List.mem_cons_of_mem start hmem
  · -- the walk would not have ended before the parent, which its length allows for
    have hcard : (tree.ancestors start depth ++ [q]).length ≤ known.card := by
      have hsubset : {p | (tree p).isSome}.encard ≤ (known : Set Nat).encard :=
        Set.encard_le_encard hknown
      rw [Set.encard_coe_eq_coe_finsetCard] at hsubset
      have hle := hlonger.length_le_encard (List.mem_singleton_self start)
      exact_mod_cast hle.trans hsubset
    have hbegins := (hlonger.prefix_walk (hcard.trans hdepth)).length_le
    rw [List.length_append, List.length_singleton] at hbegins
    exact absurd hbegins (Nat.not_succ_le_self _)

end Allotment.Ancestry.Tree
