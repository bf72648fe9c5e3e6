import Allotment.Document.Value

/-!
# Tables under construction

A TOML text defines its tables piece by piece. What may still be added to a table depends on how it
came to be, so each `Node` of the tree keeps that as its `Origin`. `Tree.enter`, `Tree.declare`
and `Tree.append` do what the three kinds of statements ask for, or fail where something would be
defined twice.
-/

namespace Allotment.Toml

open Document (Value)

/-- How a table came to be. -/
inductive Origin where
  /-- By a header of its own. -/
  | header
  /-- On the way to another table that has a header. -/
  | passed
  /-- By keys with dots. -/
  | dotted
deriving DecidableEq, Repr

/-- A value, a table, or a list of tables of which the last one is still under construction. -/
inductive Node where
  | leaf (v : Value)
  | table (origin : Origin) (entries : List (String × Node))
  | tables (earlier : List Value) (last : List (String × Node))

abbrev Tree := List (String × Node)

mutual

def Node.value : Node → Value
  | .leaf v => v
  | .table _ entries => .table (Tree.values entries)
  | .tables earlier last => .list (earlier ++ [.table (Tree.values last)])

def Tree.values : List (String × Node) → List (String × Value)
  | [] => []
  | e :: es => Tree.entryValue e :: Tree.values es

def Tree.entryValue : String × Node → String × Value
  | (key, n) => (key, n.value)

end

namespace Tree

/-- Changes the entry under a key, or makes a new one. -/
def alter (key : String) (f : Option Node → Option Node) : Tree → Option Tree
  | [] => (f none).map fun n => [(key, n)]
  | (k, n) :: es =>
    if k = key then (f (some n)).map fun n => (k, n) :: es
    else (alter key f es).map ((k, n) :: ·)

/-- Changes the table at the end of a path of headers. Missing tables are made on the way; of a list
of tables the last one is meant. -/
def alterAt (f : Origin → Tree → Option Tree) : List String → Origin → Tree → Option Tree
  | [], o, t => f o t
  | key :: path, _, t => t.alter key fun
    | none => (alterAt f path .passed []).map (.table .passed)
    | some (.leaf _) => none
    | some (.table o es) => (alterAt f path o es).map (.table o)
    | some (.tables earlier last) => (alterAt f path .header last).map (.tables earlier)

/-- Changes the table at the end of a path of dotted keys. A table with a header of its own cannot
be changed in this way. -/
def alterDotted (f : Origin → Tree → Option Tree) : List String → Origin → Tree → Option Tree
  | [], o, t => f o t
  | key :: path, _, t => t.alter key fun
    | none => (alterDotted f path .dotted []).map (.table .dotted)
    | some (.leaf _) => none
    | some (.table o es) =>
      if o = .header then none else (alterDotted f path o es).map (.table o)
    | some (.tables earlier last) => (alterDotted f path .header last).map (.tables earlier)

/-- Enters a value under a key of the table at `current`. The dotted keys before the key lead to
tables that only such keys may define. -/
def enter (t : Tree) (current path : List String) (key : String) (v : Value) : Option Tree :=
  let put (o : Origin) (t : Tree) : Option Tree :=
    if path ≠ [] ∧ o ≠ .dotted then none
    else t.alter key fun
      | none => some (.leaf v)
      | some _ => none
  alterAt (alterDotted put path) current .header t

/-- Gives the table at `path` a header of its own, which it may not have yet. -/
def declare (t : Tree) (path : List String) (key : String) : Option Tree :=
  let give (_ : Origin) (t : Tree) : Option Tree :=
    t.alter key fun
      | none => some (.table .header [])
      | some (.table .passed es) => some (.table .header es)
      | some _ => none
  alterAt give path .header t

/-- Begins a new table in the list of tables under a key. -/
def append (t : Tree) (path : List String) (key : String) : Option Tree :=
  let add (_ : Origin) (t : Tree) : Option Tree :=
    t.alter key fun
      | none => some (.tables [] [])
      | some (.tables earlier last) => some (.tables (earlier ++ [.table (values last)]) [])
      | some _ => none
  alterAt add path .header t

end Tree

end Allotment.Toml
