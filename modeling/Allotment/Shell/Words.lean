import Allotment.Shell.Cursor

/-!
# Words of a script

The parts of a word are read one after another. What quotes and backslashes mean, and where the
word ends, depends on the `Surroundings` in which it stands.
-/

namespace Allotment.Shell

open Text (Octets)
open Text.Octets (isNameStart isNameChar)

/-- Where a word stands. -/
inductive Surroundings where
  | plain
  | doubleQuotes
  /-- After a modifier, in double quotes or not. -/
  | braces (quoted : Bool)
  | document
  | arithmetic
deriving DecidableEq, Repr

namespace Surroundings

def quoted : Surroundings → Bool
  | plain => false
  | braces q => q
  | _ => true

def endsAt : Surroundings → Char → Bool
  | plain, c => Parse.isMeta c
  | doubleQuotes, c => c == '"'
  | braces _, c => c == '}'
  | document, _ => false
  | arithmetic, c => c == ')'

def mayStayOpen : Surroundings → Bool
  | plain | document => true
  | _ => false

/-- The characters that lose their meaning after a backslash, where the others do not. -/
def escapable : Surroundings → List Char
  | doubleQuotes | arithmetic => ['$', '\x60', '"', '\\']
  | braces _ => ['$', '\x60', '"', '\\', '}']
  | _ => ['$', '\x60', '\\']

def isOrdinary (s : Surroundings) (c : Char) : Bool :=
  !Parse.isMarked c && !s.endsAt c && !(s == arithmetic && c == '(')

end Surroundings

/-- The readers of what can be nested in itself. -/
structure Parsers where
  word : Surroundings → Parse Word
  /-- A list of commands up to a word or a mark that cannot belong to it. -/
  commands : Parse (List Command)
  command : Parse Command

namespace Parsers

def none : Parsers where
  word _ := failure
  commands := failure
  command := failure

end Parsers

namespace Parse

variable (inner : Unit → Parsers)

def backslash (s : Surroundings) : Parse Word := do
  match ← rest with
  | [] => return [.text ['\\'] true]
  | '\n' :: cs => jump cs; return []
  | c :: cs =>
    if s.quoted ∧ c ∉ s.escapable then return [.text ['\\'] true]
    jump cs
    return [.text [c] true]

def backquoted (quoted : Bool) : Parse Word := do
  let text ← many do
    match ← rest with
    | '\x60' :: _ => return Option.none
    | '\\' :: c :: cs =>
      if c ∈ ['\x60', '$', '\\'] ∨ quoted ∧ c = '"' then
        jump cs
        return some [c]
      else
        jump (c :: cs)
        return some ['\\']
    | c :: cs => jump cs; return some [c]
    | [] => failure
  expect "\x60"
  return [.output (← within text.flatten (inner ()).commands) quoted]

def parameterName : Parse Octets := do
  match ← rest with
  | c :: cs =>
    if isNameStart c then run isNameChar
    else if c.isDigit then run Char.isDigit
    else if c ∈ ['@', '*', '#', '?', '-', '$', '!'] then
      jump cs
      return [c]
    else failure
  | [] => failure

/-- The modifier of a parameter, its word, and whether an empty value counts as none. -/
def modifier (quoted : Bool) : Parse (Modifier × Bool × Word) := do
  let colon ← accept ":"
  let withWord (m : Modifier) (q : Bool) : Parse (Modifier × Bool × Word) := do
    return (m, colon, ← (inner ()).word (.braces q))
  if ← accept "-" then withWord .orElse quoted
  else if ← accept "=" then withWord .assign quoted
  else if ← accept "+" then withWord .andThen quoted
  else if ← accept "?" then withWord .require quoted
  else if colon then failure
  else if ← accept "%%" then withWord (.trim true true) false
  else if ← accept "%" then withWord (.trim true false) false
  else if ← accept "##" then withWord (.trim false true) false
  else if ← accept "#" then withWord (.trim false false) false
  else failure

def braced (quoted : Bool) : Parse Part := do
  match ← rest with
  | '#' :: '}' :: cs => jump cs; return .parameter ['#'] quoted
  | '#' :: cs =>
    jump cs
    let name ← parameterName
    expect "\x7d"
    return .length name quoted
  | _ =>
    let name ← parameterName
    if ← accept "\x7d" then return .parameter name quoted
    let (m, colon, word) ← modifier inner quoted
    expect "\x7d"
    return .modified name m colon word quoted

def dollar (quoted : Bool) : Parse Part := do
  if ← accept "((" then
    let word ← (inner ()).word .arithmetic
    expect "))"
    return .arithmetic word quoted
  else if ← accept "(" then
    let body ← (inner ()).commands
    expect ")"
    return .output body quoted
  else if ← accept "\x7b" then braced inner quoted
  else
    match ← rest with
    | c :: cs =>
      if isNameStart c then return .parameter (← run isNameChar) quoted
      else if c.isDigit ∨ c ∈ ['@', '*', '#', '?', '-', '$', '!'] then
        jump cs
        return .parameter [c] quoted
      else return .text ['$'] quoted
    | [] => return .text ['$'] quoted

def parts? (s : Surroundings) : Parse (Option Word) := do
  match ← rest with
  | [] => if s.mayStayOpen then return Option.none else failure
  | c :: cs =>
    if s.endsAt c then return Option.none
    else if s.isOrdinary c then return some [.text (← run s.isOrdinary) s.quoted]
    else
      jump cs
      match c with
      | '\\' => return some (← backslash s)
      | '$' => return some [← dollar inner s.quoted]
      | '\x60' => return some (← backquoted inner s.quoted)
      | '(' =>
        let word ← (inner ()).word .arithmetic
        expect ")"
        return some (.text ['('] true :: word ++ [.text [')'] true])
      | '"' =>
        match s with
        | .document => return some [.text ['"'] true]
        | .arithmetic => return some []
        | _ =>
          let word ← (inner ()).word .doubleQuotes
          expect "\""
          return some (.text [] true :: word)
      | _ =>
        if s.quoted then return some [.text [c] true]
        let text ← run (· != '\'')
        expect "'"
        return some [.text text true]

def wordIn (s : Surroundings) : Parse Word := do
  return (← many (parts? inner s)).flatten

end Parse

end Allotment.Shell
