import Allotment.Toml.Scalar
import Allotment.Toml.Tree

/-!
# TOML documents

A TOML text is a list of statements: headers of tables, headers of tables in lists, and entries.
`Toml.statements` reads them and `Toml.read?` builds the document that they define. Values may be
nested only so deep.
-/

namespace Allotment.Toml

open Document (Value)
open Text (Reader)
open Text.Reader

/-- How deep values may be nested, and how many parts a key must stay below. -/
def depthLimit : Nat := 80

/-- One part of a key: a string, or letters, digits, hyphens and underscores. -/
def simpleKey : Reader String :=
  basicString <|> literalString <|> do
    return String.ofList (← run1 fun c => c.isAlphanum || c == '-' || c == '_')

def key : Reader (List String × String) := do
  let parts ← separated1 (space *> simpleKey <* space) (char '.')
  match parts.getLast? with
  | some last => if parts.length < depthLimit then return (parts.dropLast, last) else failure
  | none => failure

def entry (value : Reader Value) : Reader ((List String × String) × Value) := do
  let k ← key
  let _ ← char '='
  space
  return (k, ← value)

/-- What follows the opening bracket of a list. The last item may have a comma after it. -/
def items (value : Reader Value) : Reader Value := do
  let l ← separated1 (gap *> value <* gap) (char ',') <|> pure []
  unless l.isEmpty do
    let _ ← optional (char ',')
  gap
  let _ ← char ']'
  return .list l

/-- What follows the opening brace of a table within a line. -/
def lineTable (value : Reader Value) : Reader Value := do
  let l ← separated1 (entry value <* space) (char ',') <|> pure []
  space
  let _ ← char '}'
  let tree ← ofOption <| l.foldlM (fun (t : Tree) e => t.enter [] e.1.1 e.1.2 e.2) []
  return .table (Tree.values tree)

/-- A value in which others are nested at most so deep. -/
def value : (depth : Nat) → Reader Value
  | 0 => scalar
  | depth + 1 =>
    (do let _ ← char '['; items (value depth)) <|>
      (do let _ ← char '\x7b'; lineTable (value depth)) <|> scalar

/-- What a line of the text can say. -/
inductive Statement where
  /-- The entries that follow belong to this table. -/
  | table (path : List String) (key : String)
  /-- The entries that follow belong to a new table at the end of this list. -/
  | tables (path : List String) (key : String)
  | entry (path : List String) (key : String) (v : Value)

/-- A line and its end; nothing is said by an empty line or a comment. -/
def line : Reader (Option Statement) := do
  space
  let statement : Reader (Option Statement) :=
    (do
      literal "[["
      let (path, key) ← key
      literal "]]"
      return some (.tables path key)) <|>
    (do
      let _ ← char '['
      let (path, key) ← key
      let _ ← char ']'
      return some (.table path key)) <|>
    (do
      let ((path, key), v) ← entry (value (depthLimit - 1))
      return some (.entry path key v))
  (do newline; return none) <|> (do comment; lineEnd; return none) <|> do
    let s ← statement
    space
    let _ ← optional comment
    lineEnd
    return s

/-- The statements of a text; a byte order mark before them is left out. -/
def statements : Reader (List Statement) := do
  let _ ← optional (char '\ufeff')
  let l ← many line
  space
  return l.filterMap id

/-- A document under construction. -/
structure Draft where
  tree : Tree
  /-- The path of the table to which entries belong. -/
  current : List String

def Draft.add (d : Draft) : Statement → Option Draft
  | .table path key => (d.tree.declare path key).map fun t => ⟨t, path ++ [key]⟩
  | .tables path key => (d.tree.append path key).map fun t => ⟨t, path ++ [key]⟩
  | .entry path key v => (d.tree.enter d.current path key v).map fun t => { d with tree := t }

def read? (text : String) : Option Value := do
  let l ← Text.Reader.all statements text
  let d ← l.foldlM Draft.add ⟨[], []⟩
  return .table (Tree.values d.tree)

end Allotment.Toml
