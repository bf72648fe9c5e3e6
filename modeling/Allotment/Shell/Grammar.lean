import Allotment.Shell.Words

/-!
# Commands of a script

The commands of a script are read a line at a time, as a shell does: what is wrong with a later
line is noticed only after the earlier ones have been run. `Script.next` reads the commands of the
next line and the documents that they announce.
-/

namespace Allotment.Shell

open Text (Octets)
open Text.Octets (isName)

namespace Parse

variable (inner : Unit → Parsers)

/-! ### Line ends and documents -/

/-- The lines of a document up to its last one, and what follows. -/
def documentLines (a : Announced) : (n : Nat) → Octets → Octets × Octets
  | 0, cs => ([], cs)
  | n + 1, cs =>
    if cs.isEmpty then ([], [])
    else
      let line := cs.takeWhile (· != '\n')
      let line := if a.untabbed then line.dropWhile (· == '\t') else line
      let rest := (cs.dropWhile (· != '\n')).drop 1
      if line = a.last then ([], rest)
      else
        let (text, rest) := documentLines a n rest
        (line ++ '\n' :: text, rest)

def document (a : Announced) : Parse Unit := do
  let cs ← rest
  let (text, after) := documentLines a (cs.length + 1) cs
  jump after
  let word ← if a.verbatim then pure [.text text true]
    else within text ((inner ()).word .document)
  modify fun c => { c with documents := (a.number, word) :: c.documents }

def newline : Parse Bool := do
  if ← accept "\n" then
    let announced := (← get).announced
    modify fun c => { c with announced := [] }
    announced.forM (document inner)
    return true
  else return false

def newlines : Parse Unit := do
  space
  let _ ← many do
    if ← newline inner then
      space
      return some ()
    else return none

/-! ### Redirections -/

/-- The text of a word of plain text, and whether any of it is quoted. -/
def verbatim (w : Word) : Octets × Bool :=
  w.foldr (fun p (cs, quoted) =>
    match p with
    | .text ds q => (ds ++ cs, q || quoted)
    | _ => (cs, quoted)) ([], false)

/-- The kind of a redirection, the descriptor that it is about unless another one is given, and for
a document whether the tabs in it count. -/
def redirectionKind? : Parse (Option (Redirection.Kind × Nat × Bool)) := do
  let announce (untabbed : Bool) := do
    let number := (← get).count
    modify fun c => { c with count := number + 1 }
    return some (.document number, 0, untabbed)
  if ← accept "<<-" then announce true
  else if ← accept "<<" then announce false
  else if ← accept "<&" then return some (.sameInput, 0, false)
  else if ← accept "<>" then return some (.both, 0, false)
  else if ← accept "<" then return some (.input, 0, false)
  else if ← accept ">>" then return some (.append, 1, false)
  else if ← accept ">&" then return some (.sameOutput, 1, false)
  else if ← accept ">|" then return some (.overwrite, 1, false)
  else if ← accept ">" then return some (.output, 1, false)
  else return none

def redirection? : Parse (Option Redirection) := do
  space
  let cs ← rest
  let digits := cs.takeWhile Char.isDigit
  match cs.drop digits.length with
  | c :: _ =>
    if c ≠ '<' ∧ c ≠ '>' then return none
    jump (cs.drop digits.length)
    match ← redirectionKind? with
    | none => return none
    | some (kind, usual, untabbed) =>
      let descriptor := if digits.isEmpty then usual else Nat.ofDigitChars 10 digits 0
      space
      let target ← (inner ()).word .plain
      if target.isEmpty then failure
      if let .document number := kind then
        let (last, quoted) := verbatim target
        modify fun c => { c with
          announced := c.announced ++ [⟨number, last, untabbed, quoted⟩] }
      return some (.mk descriptor kind target)
  | [] => return none

def redirections : Parse (List Redirection) :=
  many (redirection? inner)

/-! ### Commands -/

/-- Words of a simple command. -/
inductive Item where
  | redirection (r : Redirection)
  | word (w : Word)

def item? : Parse (Option Item) := do
  if let some r ← redirection? inner then return some (.redirection r)
  match ← rest with
  | [] => return none
  | c :: _ =>
    if isMeta c then return none
    return some (.word (← (inner ()).word .plain))

/-- The assignment that a word makes if it stands before the words of a command. -/
def assignment? : Word → Option (Octets × Word)
  | .text cs false :: w =>
    let name := cs.takeWhile (· != '=')
    match cs.drop name.length with
    | _ :: value =>
      if isName name then
        some (name, if value.isEmpty then w else .text value false :: w)
      else none
    | [] => none
  | _ => none

/-- The assignments at the beginning of a list of words, and the other words. -/
def splitAssignments : List Word → List (Octets × Word) × List Word
  | [] => ([], [])
  | w :: ws =>
    match assignment? w with
    | some a =>
      let (as, ws) := splitAssignments ws
      (a :: as, ws)
    | none => ([], w :: ws)

def simple : Parse Command := do
  let line ← line
  let items ← many (item? inner)
  if items.isEmpty then failure
  let words := items.filterMap fun | .word w => some w | _ => none
  let redirections := items.filterMap fun | .redirection r => some r | _ => none
  match items with
  | [.word [.text name false]] =>
    if isName name ∧ (← accept "(") then
      space
      expect ")"
      newlines inner
      return .function name (← (inner ()).command)
  | _ => pure ()
  let (assignments, words) := splitAssignments words
  return .simple line assignments words redirections

def body : Parse (List Command) := do
  let l ← (inner ()).commands
  if l.isEmpty then failure
  return l

def branch : Parse (List Command × List Command) := do
  let condition ← body inner
  expectWord "then"
  return (condition, ← body inner)

def conditional : Parse Command := do
  let first ← branch inner
  let more ← many do
    if ← acceptWord "elif" then return some (← branch inner) else return none
  let otherwise ← if ← acceptWord "else" then body inner else pure []
  expectWord "fi"
  return .conditional (first :: more) otherwise

def loopBody : Parse (List Command) := do
  expectWord "do"
  let l ← body inner
  expectWord "done"
  return l

def word? : Parse (Option Word) := do
  space
  match ← rest with
  | [] => return none
  | c :: _ => if isMeta c then return none else return some (← (inner ()).word .plain)

def acceptPlain (w : String) : Parse Bool := do
  let cs ← rest
  if (cs.takeWhile fun c => !isMeta c) = w.toList then accept w else return false

def each : Parse Command := do
  space
  let name ← run Text.Octets.isNameChar
  unless isName name do failure
  newlines inner
  if ← acceptPlain "in" then
    let words ← many (word? inner)
    let _ ← accept ";"
    newlines inner
    return .each name (some words) (← loopBody inner)
  else
    let _ ← accept ";"
    newlines inner
    return .each name none (← loopBody inner)

def arm? : Parse (Option (List Word × List Command)) := do
  newlines inner
  if keyword? (← rest) = some "esac" then return none
  let _ ← accept "("
  let first ← word? inner
  let more ← many do
    space
    if ← accept "|" then return some (← word? inner) else return none
  space
  expect ")"
  let commands ← (inner ()).commands
  newlines inner
  unless ← accept ";;" do
    unless keyword? (← rest) = some "esac" do failure
  match (first :: more).mapM id with
  | some patterns => return some (patterns, commands)
  | none => failure

def choice : Parse Command := do
  match ← word? inner with
  | none => failure
  | some word =>
    newlines inner
    unless ← acceptPlain "in" do failure
    let arms ← many (arm? inner)
    expectWord "esac"
    return .choice word arms

def command : Parse Command := do
  space
  replaceAlias
  let redirected (c : Command) : Parse Command := do
    let rs ← redirections inner
    return if rs.isEmpty then c else .redirected c rs
  if ← accept "(" then
    let l ← body inner
    newlines inner
    expect ")"
    redirected (.subshell l)
  else
    match keyword? (← rest) with
    | none => simple inner
    | some k =>
      expect k
      if k = "\x7b" then
        let l ← body inner
        expectWord "\x7d"
        redirected (.group l)
      else if k = "if" then redirected (← conditional inner)
      else if k = "while" then redirected (.loop false (← body inner) (← loopBody inner))
      else if k = "until" then redirected (.loop true (← body inner) (← loopBody inner))
      else if k = "for" then redirected (← each inner)
      else if k = "case" then redirected (← choice inner)
      else failure

/-! ### Lists -/

def pipeline : Parse Command := do
  let negated ← acceptWord "!"
  let first ← (inner ()).command
  let more ← many do
    space
    let cs ← rest
    match cs with
    | '|' :: '|' :: _ => return none
    | '|' :: cs =>
      jump cs
      newlines inner
      return some (← (inner ()).command)
    | _ => return none
  if more.isEmpty ∧ ¬negated then return first
  return .pipeline negated (first :: more)

def dependent : Parse Command := do
  let first ← pipeline inner
  let more ← many do
    space
    if ← accept "&&" then
      newlines inner
      return some (true, ← pipeline inner)
    else if ← accept "||" then
      newlines inner
      return some (false, ← pipeline inner)
    else return none
  return more.foldl (fun left (ifTrue, right) =>
    if ifTrue then .andThen left right else .orElse left right) first

/-- A command and the mark after it; whether another command may follow on the line. -/
def marked : Parse (Command × Bool) := do
  let c ← dependent inner
  space
  match ← rest with
  | ';' :: ';' :: _ => return (c, false)
  | ';' :: cs => jump cs; return (c, true)
  | '&' :: cs => jump cs; return (.background c, true)
  | _ => return (c, false)

def atTerminator (cs : Octets) : Bool :=
  match cs with
  | [] => true
  | ')' :: _ => true
  | ';' :: _ => true
  | _ => (keyword? cs).any (· ∈ ["then", "elif", "else", "fi", "do", "done", "esac", "\x7d"])

/-- A list of commands up to a word or a mark that cannot belong to it. -/
def commands : Parse (List Command) := do
  let groups ← many do
    newlines inner
    if atTerminator (← rest) then return none
    let (c, goesOn) ← marked inner
    if goesOn ∨ (← rest).head? = some '\n' then return some [c]
    unless atTerminator (← rest) do failure
    return some [c]
  return groups.flatten

def commandLine : Parse (List Command) := do
  let l ← many do
    space
    match ← rest with
    | [] => return none
    | '\n' :: _ => return none
    | _ =>
      let (c, goesOn) ← marked inner
      unless goesOn ∨ (← rest).isEmpty ∨ (← rest).head? = some '\n' do failure
      return some c
  let _ ← newline inner
  return l

end Parse

def Parsers.nested : (depth : Nat) → Parsers
  | 0 => .none
  | depth + 1 =>
    let inner := fun _ => nested depth
    { word := Parse.wordIn inner
      commands := Parse.commands inner
      command := Parse.command inner }

namespace Cursor

/-- The beginning of a script whose documents are numbered from the given number on. -/
def start (script : Octets) (firstDocument : Nat) : Cursor where
  rest := script
  lineEnds := script.count '\n'
  count := firstDocument

/-- Reads the commands of the next line that has any. There are none at the end of the script, and
`none` is the result where the script is not well formed. -/
def next? (c : Cursor) : Option (List Command × Cursor) :=
  let inner := fun _ => Parsers.nested (c.rest.length + 2)
  StateT.run (do Parse.newlines inner; Parse.commandLine inner) c

end Cursor

end Allotment.Shell
