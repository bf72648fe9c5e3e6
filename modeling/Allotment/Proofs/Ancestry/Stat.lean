import Allotment.Ancestry.Stat
import Allotment.Proofs.Text.Digit

/-!
# The parent in a status line

The name in a status line may be any text, also one that looks like the end of the name with another
state and another parent behind it. What is read is counted from the last closing parenthesis, and
none of the fields behind the name has one, so the parent is always the one that was written.
-/

namespace Allotment.Ancestry

open Text (isBlank isDigit_of_mem_toDigits not_isBlank_of_mem_toDigits word afterWord word_append)
open Text.Numeral (greatest32)

/-- What a status line tells. -/
structure Stat where
  process : Nat
  name : String
  state : String
  parent : Nat
  /-- The line behind the parent. -/
  rest : String

namespace Stat

variable {s : Stat} {x : Char}

/-- The line that tells it. -/
def line (s : Stat) : String :=
  toString s.process ++ " (" ++ s.name ++ ") " ++ s.state ++ " " ++ toString s.parent ++ s.rest

/-- The line behind the name. -/
def fields (s : Stat) : List Char :=
  [' '] ++ s.state.toList ++ (' ' :: (Nat.toDigits 10 s.parent ++ s.rest.toList))

theorem toList_line (s : Stat) :
    s.line.toList =
      (Nat.toDigits 10 s.process ++ [' ', '('] ++ s.name.toList) ++ ')' :: s.fields := by
  simp [line, fields, String.toList_append, Nat.toString_eq_repr]

theorem ne_closing_of_mem_toDigits {n : Nat} (h : x ∈ Nat.toDigits 10 n) : x ≠ ')' := by
  rintro rfl
  exact absurd (isDigit_of_mem_toDigits h) (by decide)

theorem not_mem_fields (hstate : ')' ∉ s.state.toList) (hrest : ')' ∉ s.rest.toList) :
    ')' ∉ s.fields := by
  have hparent : ')' ∉ Nat.toDigits 10 s.parent := fun h => ne_closing_of_mem_toDigits h rfl
  simp [fields, hstate, hrest, hparent]

theorem afterLast?_line (hstate : ')' ∉ s.state.toList) (hrest : ')' ∉ s.rest.toList) :
    afterLast? ')' s.line.toList = some s.fields := by
  rw [toList_line]
  exact afterLast?_append (not_mem_fields hstate hrest)

/-- The parent is the second word behind the name. -/
theorem word_fields (hstate : s.state ≠ "") (hword : ∀ x ∈ s.state.toList, isBlank x = false)
    (hblank : ∀ x ∈ s.rest.toList.head?, isBlank x = true) :
    word (afterWord s.fields) = Nat.toDigits 10 s.parent := by
  have hspace : ∀ x ∈ [' '], isBlank x = true := fun x hx => List.mem_singleton.1 hx ▸ rfl
  have hfirst : afterWord s.fields = ' ' :: (Nat.toDigits 10 s.parent ++ s.rest.toList) :=
    (word_append hspace hword (by simpa using hstate) (by simp; decide)).2
  rw [hfirst]
  exact (word_append hspace (fun x hx => not_isBlank_of_mem_toDigits hx) Nat.toDigits_ne_nil
    hblank).1

/-- **A status line tells the parent**, whatever the name is, if no closing parenthesis stands in
the state or behind the parent. -/
theorem line_tells_parent (s : Stat) (hparent : s.parent ≤ greatest32) (hstate : s.state ≠ "")
    (hword : ∀ x ∈ s.state.toList, isBlank x = false ∧ x ≠ ')')
    (hblank : ∀ x ∈ s.rest.toList.head?, isBlank x = true) (hrest : ')' ∉ s.rest.toList) :
    parentOfStat? s.line = some s.parent := by
  have hfields : afterLast? ')' s.line.toList = some s.fields :=
    afterLast?_line (fun hmem => (hword ')' hmem).2 rfl) hrest
  have hsecond : word (afterWord s.fields) = Nat.toDigits 10 s.parent :=
    word_fields hstate (fun x hx => (hword x hx).1) hblank
  rw [parentOfStat?, hfields, Option.bind_eq_bind, Option.bind_some, hsecond]
  exact Text.Numeral.ofText?_toDigits hparent

/-- A name that looks like several status lines. -/
def Sample.impostor : Stat where
  process := 4242
  name := "a) S 1 (b\n7 (c) R 2 "
  state := "Z"
  parent := 4100
  rest := "\t4242 0\n"

theorem impostor_tells_parent :
    parentOfStat? "4242 (a) S 1 (b\n7 (c) R 2 ) Z 4100\t4242 0\n" = some 4100 := by
  have hline : Sample.impostor.line = "4242 (a) S 1 (b\n7 (c) R 2 ) Z 4100\t4242 0\n" := by
    decide +kernel
  have hstate : Sample.impostor.state.toList = ['Z'] := by decide
  have hhead : Sample.impostor.rest.toList.head? = some '\t' := by decide
  rw [← hline]
  refine line_tells_parent Sample.impostor (by decide) (by decide) ?_ ?_ (by decide)
  · rw [hstate]
    intro x hx
    obtain rfl := List.mem_singleton.1 hx
    decide
  · rw [hhead]
    rintro x ⟨⟩
    decide

end Stat

end Allotment.Ancestry
