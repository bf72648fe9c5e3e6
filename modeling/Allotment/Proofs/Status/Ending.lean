import Allotment.Status.Pattern
import Allotment.Proofs.Status.Row
import Allotment.Proofs.Text.Matcher

/-!
# The end of a row

What the pattern of process rows says of the end of a row is what an `Ending` is. Read from the
right the end is found whatever stands before it.
-/

namespace Allotment

namespace Status

open Text (isBlank isDigit not_isBlank_of_isDigit not_isDigit_of_isBlank)
open Text.Reader (run1 satisfying)
open Text.Matcher

namespace Row

variable {s t rest between memory : List Char}

theorem mem_gap {y : Unit} : (y, rest) ∈ Pattern.gap s ↔
    ∃ g, g ≠ [] ∧ s = g ++ rest ∧ ∀ x ∈ g, isBlank x := by
  simp only [Pattern.gap, mem_bind, mem_greedy1, mem_pure]
  grind

theorem mem_space {y : Unit} : (y, rest) ∈ Pattern.space s ↔
    ∃ g, s = g ++ rest ∧ ∀ x ∈ g, isBlank x := by
  simp only [Pattern.space, mem_bind, mem_greedy, mem_pure]
  grind

theorem mem_bar {y : Unit} : (y, rest) ∈ Pattern.bar s ↔
    ∃ b, s = b ++ rest ∧ (b = [] ∨ b = ['|']) := by
  simp only [Pattern.bar, mem_bind, mem_perhaps_one, mem_pure]
  constructor
  · rintro ⟨x, middle, ⟨rfl, hx⟩, -, rfl⟩
    refine ⟨x.toList, rfl, ?_⟩
    cases x with
    | none => exact .inl rfl
    | some c =>
        obtain rfl : c = '|' := by simpa using hx
        exact .inr rfl
  · rintro ⟨b, rfl, rfl | rfl⟩
    · exact ⟨none, rest, ⟨rfl, by simp⟩, trivial, rfl⟩
    · exact ⟨some '|', rest, ⟨rfl, by simp⟩, trivial, rfl⟩

theorem eq_toList_head? (h : s.length ≤ 1) : s = s.head?.toList := by
  match s, h with
  | [], _ => rfl
  | [x], _ => rfl

theorem mem_ending : (memory, rest) ∈ Pattern.ending s ↔
    rest = [] ∧ ∃ e : Ending, IsClosing e.closing ∧ e.memory = memory ∧ s = e.text := by
  simp only [Pattern.ending, mem_bind, mem_gap, mem_greedy1, mem_perhaps_one, mem_literal,
    mem_space, mem_bar, mem_atEnd, mem_pure]
  constructor
  · rintro ⟨_, _, ⟨gap, hgap, rfl, hblank⟩, memory, _, ⟨hmemory, rfl, hdigits⟩, unitGap, _,
      ⟨rfl, hunitGap⟩, _, _, rfl, _, _, ⟨inner, rfl, hinner⟩, _, _, ⟨bar, rfl, hbar⟩, _, _,
      ⟨outer, rfl, houter⟩, _, _, ⟨rfl, rfl⟩, rfl, rfl⟩
    have hclosing : IsClosing (inner ++ (bar ++ outer)) := ⟨_, _, _, rfl, hinner, hbar, houter⟩
    refine ⟨rfl, ⟨⟨memory, unitGap.toList, inner ++ (bar ++ outer), hmemory, hdigits, ?_, ?_, ?_⟩,
      gap, hgap, hblank⟩, hclosing, rfl, ?_⟩
    · simpa using hunitGap
    · cases unitGap <;> simp
    · exact fun x hx => hclosing.isBlank_or_eq hx
    · simp [Ending.text, Amount.text, Amount.unit]
  · rintro ⟨rfl, e, ⟨inner, bar, outer, hclosing, hinner, hbar, houter⟩, rfl, rfl⟩
    refine ⟨(), e.toAmount.text, ⟨e.gap, e.gap_ne_nil, rfl, e.isBlank_of_mem_gap⟩, e.memory,
      e.unit, ⟨e.memory_ne_nil, rfl, e.isDigit_of_mem_memory⟩, e.unitGap.head?,
      "MiB".toList ++ e.closing, ⟨?_, ?_⟩, (), e.closing, rfl, (), bar ++ outer,
      ⟨inner, hclosing, hinner⟩, (), outer, ⟨bar, rfl, hbar⟩, (), [],
      ⟨outer, (List.append_nil outer).symm, houter⟩, (), [], ⟨rfl, rfl⟩, rfl, rfl⟩
    · rw [← eq_toList_head? e.length_unitGap_le]
      rfl
    · intro x hx
      exact e.isBlank_of_mem_unitGap x (List.mem_of_mem_head? hx)

theorem forall_mem_head?_append {P : Char → Prop} {w : List Char} (hne : w ≠ [])
    (hw : ∀ x ∈ w, P x) : ∀ x ∈ (w ++ s).head?, P x := by
  intro x hx
  rw [List.head?_append_of_ne_nil _ hne] at hx
  exact hw x (List.mem_of_mem_head? hx)

theorem space_append {w : List Char} (hw : ∀ x ∈ w, isBlank x)
    (hs : ∀ x ∈ s.head?, isBlank x = false) : space (w ++ s) = some ((), s) :=
  space_eq_some_iff.2 (Text.Reader.takeWhile_append_of_all hw hs).2

theorem digits_append {w : List Char} (hne : w ≠ []) (hw : ∀ x ∈ w, isDigit x)
    (hs : ∀ x ∈ s.head?, isDigit x = false) : run1 isDigit (w ++ s) = some (w, s) :=
  Text.Reader.run1_eq_some_iff.2 ⟨hne, Text.Reader.takeWhile_append_of_all hw hs⟩

theorem bar_of_ne (hs : ∀ x ∈ s.head?, x ≠ '|') : bar s = some ((), s) := by
  have hnone : Text.Reader.char '|' s = none := by
    cases s with
    | nil => rfl
    | cons c s => exact Text.Reader.satisfying_cons_of_neg (by simpa using hs c rfl)
  exact Text.Reader.bind_of_some (Text.Reader.optional_of_none hnone)

theorem optional_blank_append {w : List Char} (hlength : w.length ≤ 1) (hw : ∀ x ∈ w, isBlank x)
    (hs : ∀ x ∈ s.head?, isBlank x = false) :
    (optional (satisfying isBlank)) (w ++ s) = some (w.head?, s) := by
  match w, hlength with
  | [x], _ =>
      exact Text.Reader.optional_of_some
        (Text.Reader.satisfying_eq_some_iff.2 ⟨rfl, hw x (by simp)⟩)
  | [], _ =>
      apply Text.Reader.optional_of_none
      cases s with
      | nil => rfl
      | cons c s => exact Text.Reader.satisfying_cons_of_neg (hs c rfl)

/-- The memory is found from the right whatever stands before it. -/
theorem lastMemory_reverse {a : Amount} (ha : IsClosing a.closing)
    (hbetween : ∀ x ∈ between.getLast?, isDigit x = false) :
    lastMemory (between ++ a.text).reverse = some (a.memory, between.reverse) := by
  obtain ⟨inner, b, outer, hclosing, hinner, hbar, houter⟩ := ha
  let digits := a.memory.reverse ++ between.reverse
  let unit := "BiM".toList ++ (a.unitGap.reverse ++ digits)
  have hsplit : (between ++ a.text).reverse =
      outer.reverse ++ (b.reverse ++ (inner.reverse ++ unit)) := by
    have hmark : "MiB".toList.reverse = "BiM".toList := rfl
    simp [Amount.text, Amount.unit, hclosing, unit, digits]
  have hdigits : run1 isDigit digits = some (a.memory.reverse, between.reverse) := by
    refine digits_append (by simpa using a.memory_ne_nil) ?_ ?_
    · exact fun x hx => a.isDigit_of_mem_memory x (List.mem_reverse.1 hx)
    · rwa [List.head?_reverse]
  have hgap : (optional (satisfying isBlank)) (a.unitGap.reverse ++ digits) =
      some (a.unitGap.reverse.head?, digits) := by
    refine optional_blank_append (by simpa using a.length_unitGap_le) ?_ ?_
    · exact fun x hx => a.isBlank_of_mem_unitGap x (List.mem_reverse.1 hx)
    · refine forall_mem_head?_append (by simpa using a.memory_ne_nil) fun x hx => ?_
      exact not_isBlank_of_isDigit (a.isDigit_of_mem_memory x (List.mem_reverse.1 hx))
  have hcloses : ∀ k : Unit → Text.Reader (List Char),
      (space >>= fun _ => bar >>= fun _ => space >>= k)
        (outer.reverse ++ (b.reverse ++ (inner.reverse ++ unit))) = k () unit := by
    intro k
    have houter' : ∀ x ∈ outer.reverse, isBlank x := fun x hx => houter x (List.mem_reverse.1 hx)
    have hinner' : ∀ x ∈ inner.reverse, isBlank x := fun x hx => hinner x (List.mem_reverse.1 hx)
    have hunit : ∀ x ∈ unit.head?, isBlank x = false := by
      rintro x ⟨⟩
      decide
    rcases hbar with rfl | rfl
    · -- without a bar the blanks around it are read at once
      have hblank : ∀ x ∈ outer.reverse ++ inner.reverse, isBlank x := fun x hx =>
        (List.mem_append.1 hx).elim (houter' x) (hinner' x)
      have hbar : bar unit = some ((), unit) := bar_of_ne (by rintro x ⟨⟩; decide)
      have hspace : space unit = some ((), unit) := space_append (w := []) (by simp) hunit
      rw [List.reverse_nil, List.nil_append, ← List.append_assoc,
        Text.Reader.bind_of_some (space_append hblank hunit), Text.Reader.bind_of_some hbar,
        Text.Reader.bind_of_some hspace]
    · have hbar : bar ('|' :: (inner.reverse ++ unit)) = some ((), inner.reverse ++ unit) := rfl
      rw [Text.Reader.bind_of_some (space_append houter' (by rintro x ⟨⟩; decide))]
      exact (Text.Reader.bind_of_some hbar).trans
        (Text.Reader.bind_of_some (space_append hinner' hunit))
  have hmark : Text.Reader.literal "BiM" unit = some ((), a.unitGap.reverse ++ digits) :=
    Text.Reader.literal_eq_some_iff.2 rfl
  rw [hsplit, lastMemory, hcloses, Text.Reader.bind_of_some hmark,
    Text.Reader.bind_of_some hgap, Text.Reader.bind_of_some hdigits, List.reverse_reverse]
  rfl

end Row

end Status

end Allotment
