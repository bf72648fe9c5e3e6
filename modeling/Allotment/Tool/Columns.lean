import Allotment.Text.OctetClass
import Allotment.Tool.Basic

/-!
# Columns

Tools that take lines apart and put them together: `cut` prints parts of each line, `paste` prints
lines side by side, and `fold` breaks long lines.
-/

namespace Allotment.Tool

open Text (Octets)

namespace Cut

/-- Positions from one on, up to a last one or without end. -/
structure Range where
  first : Nat
  last : Option Nat

def range? (cs : Octets) : Option Range :=
  match Octets.splitOn '-' cs with
  | [a] => (natural? a).map fun n => ⟨n, some n⟩
  | [[], b] => (natural? b).map fun n => ⟨1, some n⟩
  | [a, []] => (natural? a).map fun n => ⟨n, none⟩
  | [a, b] => do return ⟨← natural? a, some (← natural? b)⟩
  | _ => none

def isIn (ranges : List Range) (n : Nat) : Bool :=
  ranges.any fun r => r.first ≤ n && r.last.all (n ≤ ·)

def pick {α : Type} (wanted : Nat → Bool) (items : List α) : List α :=
  (items.zipIdx 1).filterMap fun (a, n) => if wanted n then some a else none

/-- Runs of wanted octets, for which a separator is put between those that are not next to each
other in the line. -/
def runs (wanted : Nat → Bool) (ranges : List Range) (between : Octets) (l : Octets) : Octets :=
  let begins (n : Nat) : Bool := ranges.any (·.first == n) || !wanted (n - 1)
  let shown := (l.zipIdx 1).filterMap fun (c, n) =>
    if wanted n then some (if begins n then between else [], c) else none
  match shown with
  | [] => []
  | (_, c) :: more => c :: more.flatMap fun (s, c) => s ++ [c]

def tool : Tool := fun s => Attempt.settle do
  let o ← s.options
    { flags := "snz!", valued := "bcfdO"
      words := [("bytes", 'b'), ("characters", 'c'), ("fields", 'f'), ("delimiter", 'd'),
        ("only-delimited", 's'), ("complement", '!'), ("output-delimiter", 'O')] }
  let misused (message : String) : Outcome := s.misused 1 message.toList
  match o.last? ['b', 'c', 'f'] with
  | none => throw (misused "you must specify a list of bytes, characters, or fields")
  | some (kind, list) =>
    let parts := Octets.splitOn ',' (list.map fun c => if c = ' ' then ',' else c)
    let some ranges := parts.mapM range?
      | throw (s.misused 1 ("invalid field value ".toList ++ quoted list))
    if ranges.any (·.first == 0) then throw (misused "fields are numbered from 1")
    if ranges.any fun r => r.last.any (· < r.first) then
      throw (misused "invalid decreasing range")
    let separator := o.value? 'd'
    if separator.any fun d => 1 < d.length then
      throw (misused "the delimiter must be a single character")
    let delimiter := (separator.bind List.head?).getD '\t'
    let wanted (n : Nat) : Bool := isIn ranges n != o.has '!'
    let sources := s.sources o.operands
    let shown := sources.contents.flatMap fun (_, text) => text.lines.flatMap fun l =>
      if kind = 'f' then
        let fields := Octets.splitOn delimiter l
        if fields.length = 1 then (if o.has 's' then [] else l ++ ['\n'])
        else ((o.value? 'O').getD [delimiter]).intercalate (pick wanted fields) ++ ['\n']
      else
        match o.value? 'O' with
        | some between => runs wanted ranges between l ++ ['\n']
        | none => pick wanted l ++ ['\n']
    return sources.outcome shown

end Cut

namespace Paste

/-- The separators that an option writes; an empty one is written with a zero. -/
def separators : Octets → List Octets
  | '\\' :: c :: cs =>
    (if c = 'n' then ['\n'] else if c = 't' then ['\t'] else if c = '0' then [] else [c]) ::
      separators cs
  | c :: cs => [c] :: separators cs
  | [] => []

def join (separators : List Octets) (items : List Octets) : Octets :=
  match items with
  | [] => []
  | first :: more =>
    first ++ (more.zipIdx.flatMap fun (item, n) =>
      separators.getD (n % separators.length) [] ++ item)

def sideBySide (separators : List Octets) (columns : List (List Octets)) : List Octets :=
  let height := (columns.map List.length).foldl max 0
  (List.range height).map fun n => join separators (columns.map (·.getD n []))

/-- Prints lines side by side, or those of each source on one line. -/
def tool : Tool := fun s => Attempt.settle do
  let o ← s.options
    { flags := "sz", valued := "d", words := [("delimiters", 'd'), ("serial", 's')] }
  let operands := if o.operands.isEmpty then [['-']] else o.operands
  let sources := s.sources operands
  if ¬sources.messages.isEmpty ∧ ¬o.has 's' then
    throw { messages := sources.messages.take 1, status := 1 }
  let separators := separators ((o.value? 'd').getD ['\t'])
  let inputs := (operands.filter isInput).length
  let inputLines := s.input.lines
  let (columns, _) := sources.contents.foldl (fun (columns, n) (name, text) =>
    if isInput name then
      let mine := (inputLines.zipIdx.filter fun (_, k) => k % inputs == n).map (·.1)
      (columns ++ [if o.has 's' then (if n = 0 then inputLines else []) else mine], n + 1)
    else (columns ++ [text.lines], n)) (([] : List (List Octets)), 0)
  let shown := if o.has 's' then columns.map (join separators)
    else sideBySide separators columns
  return sources.outcome (Octets.unlines shown)

end Paste

namespace Fold

/-- Where the next octet of a line ends if it begins in the given column. -/
def advance (countsOctets : Bool) (column : Nat) (c : Char) : Nat :=
  if countsOctets then column + 1
  else if c = '\t' then column / 8 * 8 + 8
  else if c = '\x08' then column - 1
  else if c = '\r' then 0
  else column + 1

def splitAtBlank (l : Octets) : Option (Octets × Octets) :=
  let after := (l.reverse.takeWhile fun c => !Octets.isBlank c).reverse
  if after.length = l.length then none
  else some (l.take (l.length - after.length), after)

/-- Breaks a line that has come to a column with the octets `begun`. -/
def breakLine (width : Nat) (atBlanks countsOctets : Bool) :
    (n : Nat) → (begun : Octets) → (column : Nat) → Octets → Octets
  | 0, begun, _, cs => begun ++ cs
  | _, begun, _, [] => begun
  | n + 1, begun, column, c :: cs =>
    if c = '\n' then begun ++ '\n' :: breakLine width atBlanks countsOctets n [] 0 cs
    else
      let next := advance countsOctets column c
      if next ≤ width then breakLine width atBlanks countsOctets n (begun ++ [c]) next cs
      else
        match if atBlanks then splitAtBlank begun else none with
        | some (line, rest) =>
          let column := rest.foldl (advance countsOctets) 0
          line ++ '\n' :: breakLine width atBlanks countsOctets n rest column (c :: cs)
        | none =>
          if begun.isEmpty then
            breakLine width atBlanks countsOctets n [c] next cs
          else begun ++ '\n' :: breakLine width atBlanks countsOctets n [] 0 (c :: cs)

def tool : Tool := fun s => Attempt.settle do
  let s := { s with args := s.args.map fun a =>
    match a with
    | '-' :: ds => if !ds.isEmpty && ds.all Char.isDigit then '-' :: 'w' :: ds else a
    | _ => a }
  let o ← s.options
    { flags := "sb", valued := "w", words := [("width", 'w'), ("spaces", 's'), ("bytes", 'b')] }
  let sources := s.sources o.operands
  match (o.value? 'w').elim (some 80) natural? with
  | some (width + 1) =>
    let text := sources.text
    return sources.outcome
      (breakLine (width + 1) (o.has 's') (o.has 'b') (3 * text.length + 1) [] 0 text)
  | _ => throw (failed 1 "invalid number of columns")

end Fold

namespace Expand

/-- The column after a tab. After the last of several stops, a tab is a single blank. -/
def next (stops : List Nat) (column : Nat) : Nat :=
  match stops with
  | [size] => column / size * size + size
  | _ => (stops.find? (column < ·)).getD (column + 1)

/-- Blanks in place of tabs, or of those that stand before all else in their line. -/
def blanks (stops : List Nat) (onlyFirst : Bool) : (column : Nat) → (isFirst : Bool) → Octets →
    Octets
  | _, _, [] => []
  | column, isFirst, c :: cs =>
    if c = '\t' ∧ (isFirst ∨ ¬onlyFirst) then
      let after := next stops column
      List.replicate (after - column) ' ' ++ blanks stops onlyFirst after isFirst cs
    else if c = '\n' then c :: blanks stops onlyFirst 0 true cs
    else
      let column := if c = '\x08' then column - 1 else column + 1
      c :: blanks stops onlyFirst column (isFirst && c == ' ') cs

def tool : Tool := fun s => Attempt.settle do
  let s := { s with args := s.args.map fun a =>
    match a with
    | '-' :: ds => if ds.head?.any Char.isDigit then '-' :: 't' :: ds else a
    | _ => a }
  let o ← s.options { flags := "i", valued := "t", words := [("initial", 'i'), ("tabs", 't')] }
  let sources := s.sources o.operands
  let stops := ((o.value? 't').elim [['8']] fun cs =>
    Octets.splitOn ',' (cs.map fun c => if c = ' ' then ',' else c)).map natural?
  if stops.any fun n => n.all (· == 0) then
    throw (failed 1 "tab size contains invalid character(s)")
  return sources.outcome (blanks (stops.filterMap id) (o.has 'i') 0 true sources.text)

end Expand

end Allotment.Tool
