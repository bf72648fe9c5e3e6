import Allotment.Tool.Basic
import Allotment.Tool.Pattern

/-!
# Editing lines

`sed` takes lines one after another through the instructions of a script, which change the line that
is being edited, print it, or keep it for later.

## Implementation notes

A script is kept as a flat list. Braces and jumps hold the places in the list to which they lead.
-/

namespace Allotment.Tool

open Text (Octets)

namespace Edit

/-- A line to which an instruction applies. -/
inductive Address where
  | line (n : Nat)
  | last
  | pattern (p : Pattern)
  /-- Every so many lines from one on. -/
  | step (first width : Nat)
  /-- So many lines after the first one. -/
  | more (n : Nat)

/-- The lines to which an instruction applies. -/
structure Range where
  first : Option Address := none
  last : Option Address := none
  isNegated : Bool := false

/-- A part of what takes the place of a match. -/
inductive Piece where
  | text (cs : Octets)
  | group (n : Nat)

/-- What an instruction does. -/
inductive Action where
  | delete
  | clear
  | deleteLine
  | print
  | printLine
  | printNumber
  | quit (status : Nat) (isSilent : Bool)
  | next
  | nextAppended
  | substitute (p : Pattern) (pieces : List Piece) (nth : Nat) (isGlobal prints : Bool)
  | translate (pairs : List (Octets × Octets))
  | insert (text : Octets)
  | append (text : Octets)
  | change (text : Octets)
  | hold (isAppended : Bool)
  | recall (isAppended : Bool)
  | exchange
  /-- The instructions up to the matching brace apply to some lines only. -/
  | opening
  | closing
  | label (name : Octets)
  | jump (name : Octets)
  | jumpIfChanged (name : Octets)

/-- An instruction. -/
structure Instruction where
  range : Range
  action : Action

/-! ### Reading scripts -/

abbrev Read := StateT Octets Option

def run (p : Char → Bool) : Read Octets := do
  let cs ← get
  set (cs.dropWhile p)
  return cs.takeWhile p

def accept (c : Char) : Read Bool := do
  match ← get with
  | d :: cs => if c = d then set cs; return true else return false
  | [] => return false

/-- The text up to a mark, which a backslash keeps from ending it, and what follows. A line end may
be written with the letter `n`. -/
def upTo (mark : Char) : Octets → Option (Octets × Octets)
  | [] => none
  | '\\' :: c :: cs =>
    (upTo mark cs).map fun (text, rest) =>
      (if c = mark ∧ c ≠ '&' then c :: text else '\\' :: c :: text, rest)
  | c :: cs =>
    if c = mark then some ([], cs) else (upTo mark cs).map fun (text, rest) => (c :: text, rest)

def delimited (mark : Char) : Read Octets := do
  match upTo mark (← get) with
  | some (text, rest) => set rest; return text
  | none => failure

def pattern (isExtended foldsCase : Bool) (text : Octets) : Read Pattern :=
  match Pattern.ofText? { isExtended, foldsCase } text with
  | some p => return p
  | none => failure

def address? (isExtended : Bool) : Read (Option Address) := do
  match ← get with
  | '$' :: cs => set cs; return some .last
  | '/' :: cs =>
    set cs
    let text ← delimited '/'
    let folds ← accept 'I'
    return some (.pattern (← pattern isExtended folds text))
  | '\\' :: mark :: cs =>
    set cs
    let text ← delimited mark
    let folds ← accept 'I'
    return some (.pattern (← pattern isExtended folds text))
  | _ =>
    let ds ← run Char.isDigit
    if ds.isEmpty then return none
    let n := Text.Radix.value 10 ds
    if ← accept '~' then
      return some (.step n (Text.Radix.value 10 (← run Char.isDigit)))
    return some (.line n)

def range (isExtended : Bool) : Read Range := do
  let first ← address? isExtended
  let _ ← run Octets.isBlank
  let last ← if first.isSome ∧ (← accept ',') then do
      let _ ← run Octets.isBlank
      if ← accept '+' then
        pure (some (.more (Text.Radix.value 10 (← run Char.isDigit))))
      else do
        match ← address? isExtended with
        | some a => pure (some a)
        | none => failure
    else pure none
  let _ ← run Octets.isBlank
  let isNegated ← accept '!'
  let _ ← run Octets.isBlank
  return ⟨first, last, isNegated⟩

def pieces : Octets → List Piece
  | [] => []
  | '\\' :: c :: cs =>
    (if c.isDigit then .group (Text.Radix.digit c)
      else if c = 'n' then .text ['\n']
      else if c = 't' then .text ['\t']
      else .text [c]) :: pieces cs
  | '&' :: cs => .group 0 :: pieces cs
  | c :: cs => .text [c] :: pieces cs

def substitution (isExtended : Bool) : Read Action := do
  match ← get with
  | mark :: cs =>
    set cs
    let text ← delimited mark
    let replacement ← delimited mark
    let flags ← run fun c => c.isDigit || c ∈ ['g', 'p', 'i', 'I']
    let nth := flags.filter Char.isDigit
    let p ← pattern isExtended (flags.any fun c => c = 'i' || c = 'I') text
    return .substitute p (pieces replacement)
      (if nth.isEmpty then 1 else Text.Radix.value 10 nth) (flags.contains 'g')
      (flags.contains 'p')
  | [] => failure

/-- Text with backslashes dropped, but for those that write a line end. -/
def plain : Octets → Octets
  | '\\' :: 'n' :: cs => '\n' :: plain cs
  | '\\' :: c :: cs => c :: plain cs
  | c :: cs => c :: plain cs
  | [] => []

/-- The text of an instruction up to the end of the line. A backslash goes on with the next line. -/
def textLine : Octets → Octets × Octets
  | '\\' :: c :: cs =>
    let (text, rest) := textLine cs
    (c :: text, rest)
  | '\n' :: cs => (['\n'], cs)
  | c :: cs =>
    let (text, rest) := textLine cs
    (c :: text, rest)
  | [] => (['\n'], [])

def text : Read Octets := do
  let _ ← run Octets.isBlank
  if ← accept '\\' then
    let _ ← run Octets.isBlank
    let _ ← accept '\n'
  let (text, rest) := textLine (← get)
  set rest
  return text

def name : Read Octets := do
  let _ ← run Octets.isBlank
  let cs ← run fun c => c != '\n' && c != ';'
  return (cs.reverse.dropWhile Octets.isBlank).reverse

def action (isExtended : Bool) : Read Action := do
  match ← get with
  | [] => failure
  | c :: cs =>
    set cs
    let status : Read Nat := do
      let _ ← run Octets.isBlank
      return Text.Radix.value 10 (← run Char.isDigit)
    match c with
    | 'd' => return .delete
    | 'D' => return .deleteLine
    | 'z' => return .clear
    | 'p' => return .print
    | 'P' => return .printLine
    | '=' => return .printNumber
    | 'q' => return .quit (← status) false
    | 'Q' => return .quit (← status) true
    | 'n' => return .next
    | 'N' => return .nextAppended
    | 's' => substitution isExtended
    | 'y' =>
      match ← get with
      | mark :: cs =>
        set cs
        let source := plain (← delimited mark)
        let target := plain (← delimited mark)
        return .translate ((Octets.characters source.length source).zip
          (Octets.characters target.length target))
      | [] => failure
    | 'i' => return .insert (← text)
    | 'a' => return .append (← text)
    | 'c' => return .change (← text)
    | 'h' => return .hold false
    | 'H' => return .hold true
    | 'g' => return .recall false
    | 'G' => return .recall true
    | 'x' => return .exchange
    | '{' => return .opening
    | '}' => return .closing
    | ':' => return .label (← name)
    | 'b' => return .jump (← name)
    | 't' => return .jumpIfChanged (← name)
    | _ => failure

def instructions (isExtended : Bool) : (n : Nat) → Read (List Instruction)
  | 0 => return []
  | n + 1 => do
    let _ ← run fun c => Octets.isSpace c || c == ';'
    let cs ← get
    if cs.isEmpty then return []
    if cs.head? = some '#' then
      let _ ← run (· != '\n')
      instructions isExtended n
    else
      let r ← range isExtended
      let a ← action isExtended
      return ⟨r, a⟩ :: (← instructions isExtended n)

/-- How many braces are open after the instructions, unless one is closed that was not opened. -/
def depth? : Nat → List Instruction → Option Nat
  | d, [] => some d
  | d, i :: is =>
    match i.action, d with
    | .opening, _ => depth? (d + 1) is
    | .closing, 0 => none
    | .closing, d + 1 => depth? d is
    | _, _ => depth? d is

def script? (isExtended : Bool) (cs : Octets) : Option (List Instruction) :=
  match (instructions isExtended (cs.length + 1)).run cs with
  | some (is, _) => if depth? 0 is = some 0 then some is else none
  | none => none

/-- The instructions after the brace that closes the one just before. -/
def afterBrace : (depth : Nat) → List Instruction → List Instruction
  | _, [] => []
  | d, i :: is =>
    match i.action, d with
    | .opening, _ => afterBrace (d + 1) is
    | .closing, 0 => is
    | .closing, d + 1 => afterBrace d is
    | _, _ => afterBrace d is

/-! ### Running scripts -/

/-- What a script works on. -/
structure Bench where
  line : Octets := []
  held : Octets := []
  number : Nat := 0
  left : List Octets
  lastIsOpen : Bool
  isSilent : Bool
  printed : List Octets := []
  /-- The end of the line printed last is missing. -/
  endMissing : Bool := false
  queued : List Octets := []
  /-- The ranges that have begun, by the length of what follows them in the script, with the line
  of their beginning. -/
  begun : List (Nat × Nat) := []
  changed : Bool := false

/-- How the work on a line ends. -/
inductive Verdict where
  | cycle
  /-- The line goes through the script again without a new one. -/
  | restart
  | quit (status : Nat) (isSilent : Bool)

abbrev Work := ExceptT Verdict (StateM Bench)

def put (cs : Octets) : StateM Bench Unit :=
  modify fun b =>
    { b with printed := cs :: (if b.endMissing then ['\n'] :: b.printed else b.printed)
             endMissing := false }

/-- Prints a line, without an end if it is the last one and has none. -/
def putLine (cs : Octets) : StateM Bench Unit := do
  let b ← get
  put (if b.left.isEmpty ∧ b.lastIsOpen then cs else cs ++ ['\n'])
  modify fun c => { c with endMissing := b.left.isEmpty && b.lastIsOpen }

def putQueued : StateM Bench Unit := do
  (← get).queued.forM put
  modify fun b => { b with queued := [] }

def advance (join : Octets → Octets → Octets) : StateM Bench Unit :=
  modify fun b =>
    match b.left with
    | [] => b
    | l :: ls => { b with line := join b.line l, left := ls, number := b.number + 1 }

def Bench.fits (b : Bench) : Address → Bool
  | .line n => b.number == n
  | .last => b.left.isEmpty
  | .pattern p => (p.find? none (Octets.characters b.line.length b.line)).isSome
  | .step first width =>
    if width = 0 then b.number == first
    else first ≤ b.number && (b.number - first) % width == 0
  | .more _ => false

/-- Whether an instruction applies to the line; `key` tells it from the others. -/
def applies (key : Nat) (r : Range) : StateM Bench Bool := do
  let b ← get
  let close : StateM Bench Unit := modify fun b => { b with begun := b.begun.filter (·.1 != key) }
  let inRange ← match r.first, r.last with
    | none, _ => pure true
    | some a, none => pure (b.fits a)
    | some a, some z => do
      match b.begun.lookup key with
      | some start => do
        let ends : Bool := match z with
          | .line n => n ≤ b.number
          | .more n => start + n ≤ b.number
          | z => b.fits z
        if ends then close
        match z with
        | .line n => pure (decide (b.number ≤ n))
        | _ => pure true
      | none =>
        if b.fits a then do
          let goesOn : Bool := match z with
            | .line n => b.number < n
            | .more n => 0 < n
            | .last => !b.left.isEmpty
            | _ => true
          if goesOn then modify fun b => { b with begun := (key, b.number) :: b.begun }
          pure true
        else pure false
  return inRange != r.isNegated

def filled (ps : List Piece) (f : Pattern.Found) : List Octets :=
  ps.flatMap fun
    | .text cs => [cs]
    | .group 0 => f.text
    | .group n => (f.groups.lookup n).getD []

/-- Replaces matches from the `nth` one on, one of them or all; the result is none if there is no
such match. An empty match right after another one does not count. -/
def substituted (p : Pattern) (ps : List Piece) (isGlobal : Bool) :
    (fuel nth : Nat) → (previous : Option Octets) → (afterMatch : Bool) → List Octets →
      Option (List Octets)
  | 0, _, _, _, _ => none
  | fuel + 1, nth, previous, afterMatch, cs =>
    match p.find? previous cs with
    | none => none
    | some f =>
      let last := (f.before ++ f.text).getLast?.or previous
      if f.text.isEmpty ∧ afterMatch ∧ f.before.isEmpty then
        match cs with
        | [] => none
        | c :: rest =>
          (substituted p ps isGlobal fuel nth (some c) false rest).map (c :: ·)
      else if 1 < nth then
        match f.text, f.after with
        | [], [] => none
        | [], c :: rest =>
          (substituted p ps isGlobal fuel (nth - 1) (some c) false rest).map
            (f.before ++ c :: ·)
        | _, _ =>
          (substituted p ps isGlobal fuel (nth - 1) last true f.after).map
            (f.before ++ f.text ++ ·)
      else
        let head := f.before ++ filled ps f
        if ¬isGlobal then some (head ++ f.after)
        else
          match f.text, f.after with
          | [], [] => some head
          | [], c :: rest =>
            some (head ++ c ::
              (substituted p ps isGlobal fuel 1 (some c) false rest).getD rest)
          | _, _ =>
            some (head ++ (substituted p ps isGlobal fuel 1 last true f.after).getD f.after)

def perform : Action → Work Unit
  | .delete => throw .cycle
  | .clear => modify fun b => { b with line := [] }
  | .deleteLine => do
    let b ← get
    if '\n' ∈ b.line then
      set { b with line := (b.line.dropWhile (· != '\n')).drop 1 }
      throw .restart
    else throw .cycle
  | .print => do putLine (← get).line
  | .printLine => do put ((← get).line.takeWhile (· != '\n') ++ ['\n'])
  | .printNumber => do put (Octets.ofNat (← get).number ++ ['\n'])
  | .quit status isSilent => throw (.quit status isSilent)
  | .next => do
    let b ← get
    if b.left.isEmpty then throw (.quit 0 false)
    unless b.isSilent do putLine b.line
    putQueued
    advance fun _ l => l
  | .nextAppended => do
    if (← get).left.isEmpty then throw (.quit 0 false)
    putQueued
    advance fun a l => a ++ '\n' :: l
  | .substitute p ps nth isGlobal prints => do
    let cs := (← get).line
    let cs := Octets.characters cs.length cs
    match substituted p ps isGlobal (cs.length + 2) nth none false cs with
    | none => return ()
    | some ds =>
      modify fun b => { b with line := ds.flatten, changed := true }
      if prints then putLine (← get).line
  | .translate pairs =>
    modify fun b =>
      { b with line := (Octets.characters b.line.length b.line).flatMap fun c =>
          (pairs.lookup c).getD c }
  | .insert text => put text
  | .append text => modify fun b => { b with queued := b.queued ++ [text] }
  | .change text => do
    put text
    throw .cycle
  | .hold isAppended =>
    modify fun b => { b with held := if isAppended then b.held ++ '\n' :: b.line else b.line }
  | .recall isAppended =>
    modify fun b => { b with line := if isAppended then b.line ++ '\n' :: b.held else b.held }
  | .exchange => modify fun b => { b with line := b.held, held := b.line }
  | _ => return ()

def afterLabel (whole : List Instruction) (name : Octets) : List Instruction :=
  if name.isEmpty then []
  else (whole.dropWhile fun i =>
    match i.action with
    | .label n => n != name
    | _ => true).drop 1

def follow (whole : List Instruction) : (fuel : Nat) → List Instruction → Work Unit
  | 0, _ => throw (.quit 4 true)
  | _, [] => return ()
  | n + 1, i :: is => do
    if ← applies is.length i.range then
      match i.action with
      | .jump name => follow whole n (afterLabel whole name)
      | .jumpIfChanged name => do
        if (← get).changed then
          modify fun b => { b with changed := false }
          follow whole n (afterLabel whole name)
        else follow whole n is
      | .change text => do
        let isInside := (← get).begun.any (·.1 == is.length)
        if i.range.last.isSome ∧ ¬i.range.isNegated ∧ isInside then throw .cycle
        perform (.change text)
      | a => do
        perform a
        follow whole n is
    else
      match i.action with
      | .opening => follow whole n (afterBrace 0 is)
      | _ => follow whole n is

/-- Takes all lines through the script. The result is the status. -/
def cycles (script : List Instruction) : (fuel : Nat) → (isNew : Bool) → StateM Bench Nat
  | 0, _ => return 0
  | n + 1, isNew => do
    if isNew then
      if (← get).left.isEmpty then return 0
      advance fun _ l => l
      modify fun b => { b with changed := false }
    let printLine : StateM Bench Unit := do
      let b ← get
      unless b.isSilent do putLine b.line
    match ← (follow script 100000 script).run with
    | .ok () => printLine; putQueued; cycles script n true
    | .error .cycle => putQueued; cycles script n true
    | .error .restart => putQueued; cycles script n false
    | .error (.quit status isSilent) =>
      unless isSilent do printLine
      putQueued
      return status

def tool : Tool := fun s => Attempt.settle do
  let o ← s.options
    { flags := "nErsuz", valued := "e"
      words := [("quiet", 'n'), ("silent", 'n'), ("regexp-extended", 'E'), ("expression", 'e')] }
  let (texts, operands) ←
    match (o.given.filter (·.1 == 'e')).map (·.2), o.operands with
    | [], [] => throw (s.misused 1 "no script specified".toList)
    | [], t :: operands => pure ([t], operands)
    | ts, operands => pure (ts, operands)
  let some script := script? (o.has 'E' || o.has 'r') (['\n'].intercalate texts)
    | throw (failed 1 "-e expression #1, char 0: invalid script")
  let sources := s.sources operands fun e path => "can't read ".toList ++ e.message path
  let text := sources.text
  let isMarked := (texts.headD []).takeWhile (· != '\n') = ['#', 'n']
  let bench : Bench :=
    { left := text.lines, isSilent := o.has 'n' || isMarked
      begun := script.zipIdx.filterMap fun (i, n) =>
        match i.range.first, i.range.last with
        | some (.line 0), some _ => some (script.length - n - 1, 0)
        | _, _ => none
      lastIsOpen := text.getLast?.any (· != '\n') }
  let (status, b) := (cycles script (2 * text.length + 2) true).run bench
  let unread := (b.left.map fun l => l.length + 1).foldl (· + ·) 0
  let outcome := sources.outcome b.printed.reverse.flatten
  let isCut : Bool := !b.left.isEmpty
  return { outcome with
    waits := if isCut ∧ sources.usesInput then .octets (s.input.length - unread) else outcome.waits
    endless := outcome.endless && !isCut
    status := if status ≠ 0 then status else if sources.messages.isEmpty then 0 else 2 }

end Edit

end Allotment.Tool
