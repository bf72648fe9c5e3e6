/-!
# Documents

A document is what a settings file or a stored record says once its text has been read: a tree of
tables and lists over scalars. Integers and reals are different things here, and so a record that
wants a count refuses `1.0`.
-/

namespace Allotment.Document

/-- A value of a document. -/
inductive Value where
  /-- The explicit absence of a value. -/
  | null
  | boolean (b : Bool)
  | integer (n : Int)
  | real (x : Float)
  | text (s : String)
  /-- A date, a time of day, or both; no record here has a use for what it says. -/
  | moment
  | list (items : List Value)
  /-- Named values in the order in which they were written. -/
  | table (entries : List (String × Value))
deriving Inhabited

def Value.field? (v : Value) (name : String) : Option Value :=
  match v with
  | .table entries => entries.lookup name
  | _ => none

end Allotment.Document
