import Allotment.Shell.Syntax

/-!
# The place in a script

A `Cursor` is the place up to which a script has been read. Documents that stand in the script
begin on the line after the one that announces them, so the cursor also keeps those that have been
announced and those that have been read. A `Parse` moves the cursor, or fails where the script is
not well formed.
-/

namespace Allotment.Shell

open Text (Octets)

/-- A document whose text is still to come. -/
structure Announced where
  number : Nat
  last : Octets
  /-- Tabs at the beginning of its lines do not count. -/
  untabbed : Bool
  verbatim : Bool

/-- A place in a script. -/
structure Cursor where
  rest : Octets
  /-- The number of line ends in the whole script. -/
  lineEnds : Nat
  announced : List Announced := []
  /-- The documents that have been read, by number. -/
  documents : List (Nat × Word) := []
  /-- How many documents have been announced. -/
  count : Nat := 0
  /-- Texts that stand in the place of words where a command begins. -/
  aliases : List (Octets × Octets) := []

abbrev Parse := StateT Cursor Option

namespace Parse

variable {α : Type}

def rest : Parse Octets := do
  return (← get).rest

def jump (cs : Octets) : Parse Unit :=
  modify fun c => { c with rest := cs }

def line : Parse Nat := do
  let c ← get
  return c.lineEnds + 1 - c.rest.count '\n'

def accept (w : String) : Parse Bool := do
  let cs ← rest
  if w.toList.isPrefixOf cs then
    jump (cs.drop w.length)
    return true
  else return false

def expect (w : String) : Parse Unit := do
  unless ← accept w do failure

def run (p : Char → Bool) : Parse Octets := do
  let cs ← rest
  jump (cs.dropWhile p)
  return cs.takeWhile p

/-- Takes a step again and again until it yields nothing, at most `n` times. -/
def atMost (step : Parse (Option α)) : (n : Nat) → Parse (List α)
  | 0 => failure
  | n + 1 => do
    match ← step with
    | none => return []
    | some a => return a :: (← atMost step n)

/-- Takes a step that reads something again and again until it yields nothing. -/
def many (step : Parse (Option α)) : Parse (List α) := do
  atMost step ((← rest).length + 1)

/-- Reads another text from its beginning to its end, and then goes on where it was. -/
def within (text : Octets) (p : Parse α) : Parse α := do
  let cs ← rest
  jump text
  let a ← p
  unless (← rest).isEmpty do failure
  jump cs
  return a

def afterSpace : Octets → Octets
  | ' ' :: cs => afterSpace cs
  | '\t' :: cs => afterSpace cs
  | '\\' :: '\n' :: cs => afterSpace cs
  | '#' :: cs => cs.dropWhile (· != '\n')
  | cs => cs

def space : Parse Unit := do
  jump (afterSpace (← rest))

def isMeta (c : Char) : Bool :=
  c ∈ [' ', '\t', '\n', ';', '&', '|', '<', '>', '(', ')']

/-- A character with which something begins that is not plain text. -/
def isMarked (c : Char) : Bool :=
  c ∈ ['\\', '\'', '"', '$', '\x60']

/-- The words that mean something of their own where a command begins. -/
def reserved : List String :=
  ["if", "then", "elif", "else", "fi", "do", "done", "case", "esac", "while", "until", "for",
    "\x7b", "\x7d", "!"]

def keyword? (cs : Octets) : Option String :=
  let w := cs.takeWhile fun c => !isMeta c && !isMarked c
  if (cs.drop w.length).head?.any isMarked then none
  else reserved.find? fun k => k.toList = w

/-- Puts the text of an alias in the place of its name, and then perhaps that of another one. -/
def afterAliases : (n : Nat) → List (Octets × Octets) → Octets → Octets
  | 0, _, cs => cs
  | n + 1, aliases, cs =>
    let w := cs.takeWhile fun c => !isMeta c && !isMarked c
    if (cs.drop w.length).head?.any isMarked then cs
    else
      match aliases.lookup w with
      | some value =>
        afterAliases n (aliases.filter (·.1 != w)) (value ++ cs.drop w.length)
      | none => cs

/-- Puts the text of an alias in the place of its name if that comes next. -/
def replaceAlias : Parse Unit := do
  let aliases := (← get).aliases
  unless aliases.isEmpty do
    jump (afterSpace (afterAliases (aliases.length + 1) aliases (← rest)))

def acceptWord (k : String) : Parse Bool := do
  space
  if keyword? (← rest) = some k then accept k else return false

def expectWord (k : String) : Parse Unit := do
  unless ← acceptWord k do failure

end Parse

end Allotment.Shell
