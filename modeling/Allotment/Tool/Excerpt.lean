import Allotment.Tool.Basic

/-!
# Copies and excerpts

Tools that print what they read, in whole or in part, in the same order or backwards.
-/

namespace Allotment.Tool

open Text (Octets)

/-! ### The whole -/

namespace Cat

def visible (c : Char) : Octets :=
  let low (n : Nat) : Octets :=
    if n < 0x20 then ['^', Char.ofNat (n + 0x40)]
    else if n = 0x7F then ['^', '?']
    else [Char.ofNat n]
  if c.toNat < 0x80 then low c.toNat else 'M' :: '-' :: low (c.toNat - 0x80)

/-- How a line is printed. -/
structure Style where
  numbersAll : Bool
  numbersFull : Bool
  squeezes : Bool
  showsEnds : Bool
  showsTabs : Bool
  showsOthers : Bool

def Style.ofOptions (o : Options) : Style where
  numbersAll := o.has 'n' && !o.has 'b'
  numbersFull := o.has 'b'
  squeezes := o.has 's'
  showsEnds := o.has 'E' || o.has 'A' || o.has 'e'
  showsTabs := o.has 'T' || o.has 'A' || o.has 't'
  showsOthers := o.has 'v' || o.has 'A' || o.has 'e' || o.has 't'

def Style.octet (s : Style) (c : Char) : Octets :=
  if c = '\n' then (if s.showsEnds then ['$', '\n'] else ['\n'])
  else if c = '\t' then (if s.showsTabs then ['^', 'I'] else ['\t'])
  else if s.showsOthers then visible c
  else [c]

/-- The lines as they are printed, the first one with the given number. -/
def Style.lines (s : Style) : (number : Nat) → (afterEmpty : Bool) → List Octets → Octets
  | _, _, [] => []
  | n, afterEmpty, l :: ls =>
    let isEmpty := l == ['\n']
    if s.squeezes ∧ isEmpty ∧ afterEmpty then s.lines n true ls
    else
      let isNumbered := s.numbersAll || s.numbersFull && !isEmpty
      let lead := if isNumbered then padLeft 6 (Octets.ofNat n) ++ ['\t'] else []
      lead ++ l.flatMap s.octet ++ s.lines (if isNumbered then n + 1 else n) isEmpty ls

def tool : Tool := fun s => Attempt.settle do
  let o ← s.options
    { flags := "nbsETAetvu"
      words := [("number", 'n'), ("number-nonblank", 'b'), ("squeeze-blank", 's'),
        ("show-ends", 'E'), ("show-tabs", 'T'), ("show-all", 'A'), ("show-nonprinting", 'v')] }
  let sources := s.sources o.operands
  let text := sources.text
  if o.given.isEmpty then return sources.outcome text
  return sources.outcome ((Style.ofOptions o).lines 1 false text.rawLines)

end Cat

def tac : Tool := fun s => Attempt.settle do
  let o ← s.options {}
  let sources := s.sources o.operands Unreadable.longMessage
  return { sources.outcome (sources.contents.flatMap fun (_, text) =>
      text.rawLines.reverse.flatten) with isPrompt := false }

def rev : Tool := fun s => Attempt.settle do
  let o ← s.options {}
  let sources := s.sources o.operands fun e path => "cannot open ".toList ++ e.message path
  return sources.outcome <| sources.text.rawLines.flatMap fun l =>
    let body := l.withoutNewline
    (Octets.characters body.length body).reverse.flatten ++ l.drop body.length

def tee : Tool := fun s => Attempt.settle do
  let o ← s.options { flags := "aip", words := [("append", 'a')] }
  let disk := o.operands.foldl (fun d path =>
    let before := if o.has 'a' then (d.read path).toOption.getD [] else []
    d.write path (before ++ s.input)) s.disk
  return { output := s.input, waits := .all, written := some disk, isPrompt := true }

/-! ### The beginning and the end -/

namespace Excerpt

/-- How much is printed: so many lines or octets. -/
structure Measure where
  count : Nat
  isOctets : Bool
  /-- The count is of what is left out. -/
  isOmitted : Bool

def scaled? (cs : Octets) : Option Nat :=
  let (ds, unit) := Text.Radix.split 10 cs
  if ds.isEmpty then none
  else
    let n := Text.Radix.value 10 ds
    match String.ofList unit with
    | "" => some n
    | "b" => some (n * 512)
    | "kB" => some (n * 1000)
    | "k" | "K" | "KiB" => some (n * 1024)
    | "MB" => some (n * 1000000)
    | "m" | "M" | "MiB" => some (n * 1048576)
    | _ => none

/-- The measure that the options ask for, where the given sign means that the count is of what is
left out. -/
def measure (o : Options) (omitting : Char) : Except Outcome Measure :=
  match o.last? ['n', 'c'] with
  | none => .ok ⟨10, false, false⟩
  | some (kind, value) =>
    let isOmitted := value.head? == some omitting
    let digits := if value.head? ∈ [some '-', some '+'] then value.tail else value
    match scaled? digits with
    | some n => .ok ⟨n, kind == 'c', isOmitted⟩
    | none =>
      let what := if kind = 'c' then "invalid number of bytes: " else "invalid number of lines: "
      .error { messages := [what.toList ++ quoted value], status := 1 }

def Measure.beginning (m : Measure) (text : Octets) : Octets :=
  if m.isOctets then text.take (if m.isOmitted then text.length - m.count else m.count)
  else
    let ls := text.rawLines
    (ls.take (if m.isOmitted then ls.length - m.count else m.count)).flatten

def Measure.ending (m : Measure) (text : Octets) : Octets :=
  if m.isOctets then text.drop (if m.isOmitted then m.count - 1 else text.length - m.count)
  else
    let ls := text.rawLines
    (ls.drop (if m.isOmitted then m.count - 1 else ls.length - m.count)).flatten

def titled (o : Options) (texts : List (Octets × Octets)) : Octets :=
  let isTitled := (o.operands.length > 1 || o.has 'v') && !o.has 'q'
  let titles := texts.map fun (name, text) =>
    let name := if name = ['-'] then "standard input".toList else name
    if isTitled then "==> ".toList ++ name ++ " <==\n".toList ++ text else text
  (if isTitled then ['\n'] else []).intercalate titles

def known : Known :=
  { flags := "qvfFz", valued := "nc"
    words := [("lines", 'n'), ("bytes", 'c'), ("quiet", 'q'), ("silent", 'q'), ("verbose", 'v')] }

/-- Arguments with a count for their first option, in the form with a letter. -/
def withLetter (sign : Char) : List Octets → List Octets
  | (c :: ds) :: args =>
    if c = sign ∧ ds.head?.any Char.isDigit then
      let (count, letters) := Text.Radix.split 10 ds
      let count := if sign = '+' then '+' :: count else count
      match letters with
      | ['c'] => ['-', 'c'] :: count :: args
      | _ => ['-', 'n'] :: count :: args
    else (c :: ds) :: args
  | args => args

def head : Tool := fun s => Attempt.settle do
  let s := { s with args := withLetter '-' s.args }
  let o ← s.options known
  let m ← measure o '-'
  let sources := s.sources o.operands Unreadable.longMessage
  let outcome := sources.outcome
    (titled o (sources.contents.map fun (name, text) => (name, m.beginning text)))
  let shown := m.beginning s.input
  let found := if m.isOctets then shown.length else shown.count '\n'
  if ¬m.isOmitted ∧ (m.count ≤ found ∨ ¬sources.usesInput) then
    return { outcome with
      waits := if sources.usesInput then .octets shown.length else .nothing, endless := false }
  return outcome

def tail : Tool := fun s => Attempt.settle do
  let hasCount := withLetter '+' (withLetter '-' s.args) ≠ s.args
  if hasCount ∧ 2 < s.args.length ∧ s.args.head?.any fun a => a.head? = some '-' then
    throw (failed 1 ("option used in invalid context -- " ++
      String.ofList ((s.args.headD []).drop 1 |>.take 1)))
  let s := if 2 < s.args.length then s
    else { s with args := withLetter '+' (withLetter '-' s.args) }
  let o ← s.options known
  let m ← measure o '+'
  let sources := s.sources o.operands Unreadable.longMessage
  return { sources.outcome
      (titled o (sources.contents.map fun (name, text) => (name, m.ending text))) with
    isPrompt := false
    endless := sources.isEndless || (o.has 'f' || o.has 'F') && !o.operands.isEmpty }

end Excerpt

end Allotment.Tool
