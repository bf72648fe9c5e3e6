import Allotment.Text.OctetClass
import Allotment.Text.Radix

/-!
# Patterns of lines

Patterns as tools for lines read them, in the basic notation, in which most marks need a backslash,
or in the extended one. `Pattern.ways` lists all ways in which a pattern matches at a place, and
`Pattern.find?` takes the longest match at the first place where there is one.
-/

namespace Allotment.Tool

open Text (Octets)

/-- A pattern for the characters of a line; each character is given by its octets. -/
inductive Pattern where
  | empty
  | one (p : Octets → Bool)
  /-- A place between characters, by the ones before and after it. -/
  | place (p : Option Octets → Option Octets → Bool)
  | group (number : Nat) (p : Pattern)
  | again (number : Nat)
  | andThen (p q : Pattern)
  | either (p q : Pattern)
  | repeated (least : Nat) (greatest : Option Nat) (p : Pattern)

namespace Pattern

/-! ### Matching -/

/-- A place in a line, with the groups that have been matched before it. -/
structure Spot where
  before : Option Octets
  rest : List Octets
  groups : List (Nat × List Octets) := []

def Spot.skip? : Spot → List Octets → Option Spot
  | s, [] => some s
  | s, c :: cs =>
    match s.rest with
    | d :: rest => if c = d then Spot.skip? { s with before := some d, rest } cs else none
    | [] => none

/-- All places that are reached by steps, of which there are so many; more steps come first. A step
that reaches nothing new is taken only if it is needed. -/
def iterate (step : Spot → List Spot) : (fuel least : Nat) → Option Nat → Spot → List Spot
  | 0, _, _, s => [s]
  | n + 1, least, greatest, s =>
    let longer :=
      if greatest = some 0 then []
      else (step s).flatMap fun t =>
        if t.rest.length = s.rest.length ∧ least = 0 then []
        else iterate step n (least - 1) (greatest.map (· - 1)) t
    longer ++ if least = 0 then [s] else []

def ways : Pattern → Spot → List Spot
  | empty, s => [s]
  | one p, s =>
    match s.rest with
    | c :: rest => if p c then [{ s with before := some c, rest }] else []
    | [] => []
  | place p, s => if p s.before s.rest.head? then [s] else []
  | group n p, s =>
    (ways p s).map fun t =>
      { t with groups := (n, s.rest.take (s.rest.length - t.rest.length)) :: t.groups }
  | again n, s =>
    match s.groups.lookup n with
    | some cs => (s.skip? cs).toList
    | none => []
  | andThen p q, s => (ways p s).flatMap (ways q)
  | either p q, s => ways p s ++ ways q s
  | repeated least greatest p, s =>
    iterate (ways p) (s.rest.length + least + 1) least greatest s

/-- A match in a line. -/
structure Found where
  before : List Octets
  text : List Octets
  after : List Octets
  groups : List (Nat × List Octets)

def longest? (p : Pattern) (previous : Option Octets) (cs : List Octets) : Option Found :=
  let best := (ways p ⟨previous, cs, []⟩).foldl (fun best s =>
    match best with
    | none => some s
    | some b => if s.rest.length < b.rest.length then some s else best) (none : Option Spot)
  best.map fun s => ⟨[], cs.take (cs.length - s.rest.length), s.rest, s.groups⟩

def find? (p : Pattern) (previous : Option Octets) : List Octets → Option Found
  | [] => longest? p previous []
  | c :: cs =>
    (longest? p previous (c :: cs)).or
      ((find? p (some c) cs).map fun f => { f with before := c :: f.before })

/-! ### Reading -/

/-- A letter, a digit or an underscore; characters of more than one octet count as letters. -/
def isWordCharacter : Octets → Bool
  | [c] => c.isAlphanum || c == '_'
  | cs => 1 < cs.length

def atStart : Pattern :=
  place fun before _ => before.isNone

def atEnd : Pattern :=
  place fun _ after => after.isNone

def octet (p : Char → Bool) : Octets → Bool
  | [c] => p c
  | _ => false

def letter? : Char → Option Pattern
  | 'w' => some (one isWordCharacter)
  | 'W' => some (one fun c => !isWordCharacter c)
  | 's' => some (one (octet Octets.isSpace))
  | 'S' => some (one fun c => !octet Octets.isSpace c)
  | 'b' => some (place fun a b => a.any isWordCharacter != b.any isWordCharacter)
  | 'B' => some (place fun a b => a.any isWordCharacter == b.any isWordCharacter)
  | '<' => some (place fun a b => !a.any isWordCharacter && b.any isWordCharacter)
  | '>' => some (place fun a b => a.any isWordCharacter && !b.any isWordCharacter)
  | 'n' => some (one (octet (· == '\n')))
  | 't' => some (one (octet (· == '\t')))
  | _ => none

/-- How a pattern is written. -/
structure Style where
  isExtended : Bool := false
  foldsCase : Bool := false

def Style.same (m : Style) (c : Octets) : Octets → Bool :=
  if m.foldsCase then fun d => c.map Char.toLower == d.map Char.toLower else (· == c)

/-- Reads a pattern, given what is left of it and the number of groups so far. -/
abbrev Read := StateT (List Octets × Nat) Option

def Read.rest : Read (List Octets) := do
  return (← get).1

def Read.jump (cs : List Octets) : Read Unit :=
  modify fun (_, n) => (cs, n)

def Read.accept (w : String) : Read Bool := do
  let cs ← Read.rest
  let w := w.toList.map ([·])
  if w.isPrefixOf cs then
    Read.jump (cs.drop w.length)
    return true
  else return false

/-- Reads a mark, which has a backslash before it in the basic notation. -/
def Read.mark (m : Style) (w : String) : Read Bool :=
  Read.accept (if m.isExtended then w else "\\" ++ w)

/-- The members of a class up to its closing bracket, which stands for itself if it comes first. -/
def members (m : Style) : (n : Nat) → (isFirst : Bool) → List Octets →
    Option ((Octets → Bool) × List Octets)
  | 0, _, _ => none
  | _, _, [] => none
  | n + 1, isFirst, c :: cs =>
    if c = [']'] ∧ ¬isFirst then some (fun _ => false, cs)
    else
      let rest := (c :: cs).flatten
      match if c = ['['] ∧ cs.head? = some [':'] then named (rest.drop 2) else none with
      | some (p, length) =>
        (members m n false ((c :: cs).drop (length + 4))).map fun (q, r) =>
          (fun d => octet p d || m.foldsCase &&
            (octet p (d.map Char.toLower) || octet p (d.map Char.toUpper)) || q d, r)
      | none =>
        match cs with
        | ['-'] :: high :: after =>
          if high = [']'] then
            (members m n false cs).map fun (q, r) => (fun d => m.same c d || q d, r)
          else
            (members m n false after).map fun (q, r) =>
              (fun d => inRange c high d || m.foldsCase &&
                (inRange c high (d.map Char.toLower) || inRange c high (d.map Char.toUpper)) ||
                q d, r)
        | _ => (members m n false cs).map fun (q, r) => (fun d => m.same c d || q d, r)
where
  /-- The class with the name up to a colon, and the length of the name. -/
  named (cs : Octets) : Option ((Char → Bool) × Nat) :=
    let name := cs.takeWhile Char.isAlpha
    if [':', ']'].isPrefixOf (cs.drop name.length) then
      (Octets.class? (String.ofList name)).map fun p => (p, name.length)
    else none
  /-- The character lies between two others. -/
  inRange (low high d : Octets) : Bool :=
    let number (cs : Octets) : Nat := cs.foldl (fun n c => n * 0x100 + c.toNat) 0
    number low ≤ number d && number d ≤ number high

def bracketed (m : Style) : Read Pattern := do
  let isNegated ← Read.accept "^"
  let cs ← Read.rest
  match members m (cs.length + 1) true cs with
  | some (p, rest) =>
    Read.jump rest
    return .one fun c => p c != isNegated
  | none => failure

def number? : Read (Option Nat) := do
  let cs ← Read.rest
  let ds := cs.takeWhile (octet Char.isDigit)
  Read.jump (cs.drop ds.length)
  return if ds.isEmpty then none else some (Text.Radix.value 10 ds.flatten)

def repetitions (m : Style) : (n : Nat) → Pattern → Read Pattern
  | 0, p => return p
  | n + 1, p => do
    if ← Read.accept "*" then repetitions m n (.repeated 0 none p)
    else if ← Read.mark m "+" then repetitions m n (.repeated 1 none p)
    else if ← Read.mark m "?" then repetitions m n (.repeated 0 (some 1) p)
    else if ← Read.mark m "\x7b" then
      let least ← number?
      let greatest ← if ← Read.accept "," then number? else pure least
      unless ← Read.mark m "\x7d" do failure
      repetitions m n (.repeated (least.getD 0) greatest p)
    else return p

def atEndOfPart (m : Style) : Read Bool := do
  let cs ← Read.rest
  if cs.isEmpty then return true
  let isNext (w : String) : Bool :=
    ((if m.isExtended then w else "\\" ++ w).toList.map ([·])).isPrefixOf cs
  return isNext ")" || isNext "|"

/-- What stands between marks of repetition, given a reader for what groups hold. -/
def atom (m : Style) (inner : Unit → Read Pattern) (isFirst : Bool) : Read Pattern := do
  if ← Read.mark m "(" then
    let number := (← get).2 + 1
    modify fun (cs, _) => (cs, number)
    let p ← inner ()
    unless ← Read.mark m ")" do failure
    return .group number p
  match ← Read.rest with
  | [] => failure
  | ['\\'] :: c :: cs =>
    Read.jump cs
    match c with
    | [d] =>
      if d.isDigit then return .again (Text.Radix.digit d)
      return (letter? d).getD (.one (m.same c))
    | _ => return .one (m.same c)
  | c :: cs =>
    Read.jump cs
    if c = ['['] then bracketed m
    else if c = ['.'] then return .one fun d => d != ['\n']
    else if c = ['^'] ∧ (m.isExtended ∨ isFirst) then return atStart
    else if c = ['$'] ∧ (← atEndOfPart m) then return atEnd
    else if c = ['$'] ∧ m.isExtended then return atEnd
    else return .one (m.same c)

def parts (m : Style) (inner : Unit → Read Pattern) : (n : Nat) → (isFirst : Bool) →
    Read Pattern
  | 0, _ => failure
  | n + 1, isFirst => do
    if m.isExtended ∧ isFirst then
      let _ ← Read.accept "*"
    if ← atEndOfPart m then return .empty
    let before ← Read.rest
    let p ← atom m inner isFirst
    let isAnchor := isFirst && before.head? == some ['^']
    let p ← if isAnchor ∧ ¬m.isExtended then pure p else repetitions m before.length p
    return .andThen p (← parts m inner n isAnchor)

def choices (m : Style) : (depth : Nat) → Read Pattern
  | 0 => failure
  | depth + 1 => do
    let length := (← Read.rest).length
    let first ← parts m (fun _ => choices m depth) (length + 1) true
    if ← Read.mark m "|" then return .either first (← choices m depth)
    else return first

/-- The pattern that a text writes, unless it is not well formed. -/
def ofText? (m : Style) (text : Octets) : Option Pattern :=
  let cs := Octets.characters text.length text
  match (choices m (cs.length + 2)).run (cs, 0) with
  | some (p, ([], _)) => some p
  | _ => none

def ofLiteral (m : Style) (text : Octets) : Pattern :=
  (Octets.characters text.length text).foldr (fun c p => .andThen (.one (m.same c)) p) .empty

end Pattern

end Allotment.Tool
