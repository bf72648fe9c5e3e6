import Allotment.Document.Value
import Allotment.Word

/-!
# Reading values and records

Scalars are read with their bounds, and a real is never read as an integer. The fields of a record
stand in a table under their names, or in a list in a fixed order. `Value.fields?` brings both into
one form, and `required` and `optional` read one field of it.
-/

namespace Allotment.Document

/-- What is done about a list with more items than the record has fields. -/
inductive Surplus where
  | ignored
  | refused
deriving DecidableEq, Repr

abbrev Fields := List (String × Value)

namespace Value

def int? (w : Word) : Value → Option Int
  | integer n => if w.Holds n then some n else none
  | _ => none

def nat? (greatest : Nat) : Value → Option Nat
  | integer n => if 0 ≤ n ∧ n ≤ greatest then some n.toNat else none
  | _ => none

def real? : Value → Option Float
  | integer n => some (Float.ofInt n)
  | real x => some x
  | _ => none

def text? : Value → Option String
  | text s => some s
  | _ => none

def texts? : Value → Option (List String)
  | list items => items.mapM text?
  | _ => none

/-- The name of an alternative: a text, or a table that holds no more than that name. -/
def choice? : Value → Option String
  | text s => some s
  | table [(s, null)] => some s
  | _ => none

/-- The fields of a record, given their names in order. A moment is read as a record with none of
these fields. -/
def fields? (surplus : Surplus) (names : List String) : Value → Option Fields
  | table entries => some entries
  | list items =>
    if surplus = .refused ∧ names.length < items.length then none else some (names.zip items)
  | moment => some []
  | _ => none

end Value

namespace Fields

variable {α : Type}

def required (f : Fields) (name : String) (read : Value → Option α) : Option α :=
  (f.lookup name).bind read

/-- A field that may be left out. What is there must be readable. -/
def optional (f : Fields) (name : String) (read : Value → Option α) (default : α) : Option α :=
  match f.lookup name with
  | none => some default
  | some v => read v

end Fields

namespace Value

theorem holds_of_int? {w : Word} {v : Value} {n : Int} (h : v.int? w = some n) : w.Holds n := by
  simp only [int?] at h
  split at h
  · simp only [Option.ite_none_right_eq_some, Option.some.injEq] at h
    exact h.2 ▸ h.1
  · simp at h

end Value

end Allotment.Document
