import Allotment.Text.Blank
import Allotment.Text.Numeral
import Allotment.Text.Utf8

/-!
# Process status lines

The status line of a process gives its number, its name in parentheses, its state and the number of
its parent: `4242 (trainer) S 4100 4242 4100 0`. The name is free text that may itself hold blanks
and parentheses, so the fields are counted from the last closing parenthesis.
-/

namespace Allotment.Ancestry

open Text (word afterWord)

/-- What follows the last `c` of a text, if there is one. -/
def afterLast? (c : Char) : List Char → Option (List Char)
  | [] => none
  | d :: cs => (afterLast? c cs).or (if d = c then some cs else none)

def parentOfStat? (line : String) : Option Nat := do
  let fields ← afterLast? ')' line.toList
  Text.Numeral.ofText? Text.Numeral.greatest32 (word (afterWord fields))

/-- The parent named by a status file, which has to be UTF-8. -/
def parentOfStatFile? (bytes : List UInt8) : Option Nat :=
  match Text.Utf8.decode bytes with
  | .ok line => parentOfStat? line
  | .error _ => none

theorem afterLast?_eq_none {c : Char} {cs : List Char} (h : c ∉ cs) : afterLast? c cs = none := by
  induction cs with
  | nil => rfl
  | cons d cs ih =>
    simp only [List.mem_cons, not_or] at h
    simp [afterLast?, ih h.2, Ne.symm h.1]

/-- The last `c` is the one after which there is no other. -/
theorem afterLast?_append {c : Char} {before after : List Char} (h : c ∉ after) :
    afterLast? c (before ++ c :: after) = some after := by
  induction before with
  | nil => simp [afterLast?, afterLast?_eq_none h]
  | cons d before ih => simp [afterLast?, ih]

end Allotment.Ancestry
