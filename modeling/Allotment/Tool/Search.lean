import Allotment.Tool.Basic
import Allotment.Tool.Pattern

/-!
# Lines that match

`grep` prints the lines of its sources in which a pattern is found.
-/

namespace Allotment.Tool

open Text (Octets)

namespace Search

/-- A line, and whether it is selected. -/
structure Line where
  number : Nat
  text : Octets
  isSelected : Bool

/-- The matches in a line one after another. Empty ones are left out. -/
def occurrences (p : Pattern) : (fuel : Nat) → Option Octets → List Octets → List Octets
  | 0, _, _ => []
  | n + 1, previous, cs =>
    match p.find? previous cs with
    | none => []
    | some f =>
      match f.text with
      | [] =>
        match f.after with
        | [] => []
        | c :: rest => occurrences p n (some c) rest
      | _ => f.text.flatten :: occurrences p n f.text.getLast? f.after

/-- The lines near selected ones: those at most `before` lines before or `after` lines after one. -/
def inContext (before after : Nat) (ls : List Line) : List Line :=
  let selected := (ls.filter (·.isSelected)).map (·.number)
  ls.filter fun l => selected.any fun n => n ≤ l.number + before && l.number ≤ n + after

/-- A letter, a digit or an underscore at the given end of a text. -/
def isWordAt (c? : Option Octets) : Bool :=
  c?.any Pattern.isWordCharacter

def bounded (o : Options) (p : Pattern) : Pattern :=
  if o.has 'x' then .andThen Pattern.atStart (.andThen p Pattern.atEnd)
  else if o.has 'w' then
    .andThen (.place fun a _ => !isWordAt a) (.andThen p (.place fun _ b => !isWordAt b))
  else p

def known : Known :=
  { flags := "vicnoqsEFGPxwlLhHayr", valued := "emABC", misuse := 2
    words := [("invert-match", 'v'), ("ignore-case", 'i'), ("count", 'c'), ("line-number", 'n'),
      ("only-matching", 'o'), ("quiet", 'q'), ("silent", 'q'), ("no-messages", 's'),
      ("extended-regexp", 'E'), ("fixed-strings", 'F'), ("basic-regexp", 'G'),
      ("line-regexp", 'x'), ("word-regexp", 'w'), ("regexp", 'e'), ("max-count", 'm'),
      ("files-with-matches", 'l'), ("no-filename", 'h'), ("with-filename", 'H'),
      ("after-context", 'A'), ("before-context", 'B'), ("context", 'C')] }

def judged (o : Options) (p : Pattern) (text : Octets) : List Line :=
  (text.lines.zipIdx 1).map fun (l, n) =>
    ⟨n, l, (p.find? none (Octets.characters l.length l)).isSome != o.has 'v'⟩

/-- How many octets of a text are looked at, if more lines need not be. -/
def enough? (o : Options) (ls : List Line) : Option Nat :=
  let wanted := if o.has 'q' ∨ o.has 'l' then some 1 else (o.value? 'm').bind natural?
  wanted.bind fun n =>
    if n = 0 then some 0
    else
      (((ls.filter (·.isSelected))[n - 1]?).map (·.number)).map fun last =>
        ((ls.take last).map fun l => l.text.length + 1).foldl (· + ·) 0

/-- What is printed for one source, and whether a line of it is selected. -/
def report (o : Options) (p : Pattern) (name : Option Octets) (text : Octets) : Octets × Bool :=
  let number (c : Char) : Nat := (((o.value? c).or (o.value? 'C')).bind natural?).getD 0
  let limit := (o.value? 'm').bind natural?
  let ls := judged o p text
  let selected := ls.filter (·.isSelected)
  let selected := match limit with
    | some n => selected.take n
    | none => selected
  let label (mark : Char) (n : Nat) : Octets :=
    (name.elim [] (· ++ [mark])) ++ if o.has 'n' then Octets.ofNat n ++ [mark] else []
  let found := !selected.isEmpty
  let shown : Octets :=
    if o.has 'q' then []
    else if o.has 'L' then (if found then [] else name.getD "(standard input)".toList ++ ['\n'])
    else if o.has 'l' then (if found then name.getD "(standard input)".toList ++ ['\n'] else [])
    else if o.has 'c' then
      name.elim [] (· ++ [':']) ++ Octets.ofNat selected.length ++ ['\n']
    else if o.has 'o' then
      if o.has 'v' then []
      else
        selected.flatMap fun l =>
          (occurrences p (l.text.length + 1) none (Octets.characters l.text.length l.text)).flatMap
            fun cs => label ':' l.number ++ cs ++ ['\n']
    else
      let before := number 'B'
      let after := number 'A'
      if before = 0 ∧ after = 0 then
        selected.flatMap fun l => label ':' l.number ++ l.text ++ ['\n']
      else
        let near := inContext before after ls
        (near.zip (none :: near.map some)).flatMap fun (l, previous) =>
          let gap := previous.any fun q => q.number + 1 < l.number
          (if gap then ['-', '-', '\n'] else []) ++
            label (if l.isSelected then ':' else '-') l.number ++ l.text ++ ['\n']
  (shown, found)

/-- Prints the lines that match. The status tells whether there are any. -/
def tool (isExtended isFixed : Bool) : Tool := fun s => Attempt.settle do
  let o ← s.options known
  let (patterns, operands) ←
    match (o.given.filter (·.1 == 'e')).map (·.2), o.operands with
    | [], [] => throw (s.misused 2 "missing pattern".toList)
    | [], p :: operands => pure ([p], operands)
    | ps, operands => pure (ps, operands)
  let style : Pattern.Style :=
    { isExtended := isExtended || o.has 'E' || o.has 'P', foldsCase := o.has 'i' || o.has 'y' }
  let texts := patterns.flatMap (Octets.splitOn '\n')
  let some parts := texts.mapM fun t =>
      if isFixed || o.has 'F' then some (Pattern.ofLiteral style t) else Pattern.ofText? style t
    | throw (failed 2 "Invalid regular expression")
  let p := match parts with
    | [] => Pattern.empty
    | p :: ps => ps.foldl Pattern.either p
  let p := bounded o p
  let sources := s.sources operands
  let isNamed := (1 < operands.length || o.has 'H') && !o.has 'h'
  let reports := sources.contents.map fun (name, text) =>
    let name := if isInput name then "(standard input)".toList else name
    report o p (if isNamed || ((o.has 'l' || o.has 'L') && !operands.isEmpty)
      then some name else none) text
  let found := reports.any (·.2)
  return {
    output := reports.flatMap (·.1)
    messages := if o.has 's' then [] else sources.messages
    status := if found ∧ (sources.messages.isEmpty ∨ o.has 'q') then 0
      else if sources.messages.isEmpty then 1 else 2
    waits := if sources.usesInput then (enough? o (judged o p s.input)).elim .all .octets
      else .nothing
    isPrompt := true
    endless := sources.isEndless }

end Search

end Allotment.Tool
