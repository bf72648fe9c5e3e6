import Allotment.Text.OctetClass
import Allotment.Tool.Order

/-!
# Tests

`test` tells by its status whether a statement about texts, numbers and files is true. Whether an
argument is an operator depends on those around it.
-/

namespace Allotment.Tool

open Text (Octets)

namespace Test

/-- What an argument is. -/
inductive Kind where
  | finish
  | operand
  | unary (letter : Char)
  | binary (op : String)
  | not
  | and
  | or
  | opening
  | closing
deriving DecidableEq

def binaryOperators : List String :=
  ["=", "!=", "<", ">", "-eq", "-ne", "-lt", "-le", "-gt", "-ge", "-nt", "-ot", "-ef"]

def unaryOperators : List Char :=
  "nzrwxefdcbpuhgkLOGSst".toList

def operator? (equalsTwice : Bool) (a : Octets) : Option Kind :=
  match a with
  | ['!'] => some .not
  | ['('] => some .opening
  | [')'] => some .closing
  | ['-', 'a'] => some .and
  | ['-', 'o'] => some .or
  | ['-', c] => if c ∈ unaryOperators then some (.unary c) else none
  | _ =>
    if equalsTwice ∧ a = ['=', '='] then some (.binary "=")
    else if equalsTwice ∧ (a = ['<'] ∨ a = ['>']) then none
    else (binaryOperators.find? (·.toList = a)).map .binary

/-- What the first of some arguments is. An operator with one operand is an operand itself if
nothing follows it, or if an operator with two operands and one more argument do. -/
def kindOf (equalsTwice : Bool) (args : List Octets) : Kind :=
  match args with
  | [] => .finish
  | a :: more =>
    match operator? equalsTwice a with
    | none => .operand
    | some (.unary c) =>
      match more with
      | [] => .operand
      | [_] => .unary c
      | b :: _ =>
        match operator? equalsTwice b with
        | some (.binary _) => .operand
        | _ => .unary c
    | some .opening => if more.isEmpty then .operand else .opening
    | some k => k

abbrev Judge := StateT (List Octets) (Except Octets)

def integer (a : Octets) : Judge Int := do
  let cs := a.dropWhile Octets.isSpace
  let cs := (cs.reverse.dropWhile Octets.isSpace).reverse
  match integer? cs with
  | some n => return n
  | none => throw ("Illegal number: ".toList ++ a)

def fileHas (s : Setting) (letter : Char) (path : Octets) : Bool :=
  let isDirectory := s.disk.isDirectory path
  let content := s.disk.content? path
  let isProgram := s.isProgram path
  let isDevice := s.disk.isNull path || s.disk.isEndless path
  match letter with
  | 'e' => isDirectory || content.isSome || isProgram || isDevice
  | 'f' => content.isSome || isProgram
  | 'd' => isDirectory
  | 'c' => isDevice
  | 'r' | 'w' | 'O' | 'G' => isDirectory || content.isSome || isProgram || isDevice
  | 'x' => isDirectory || isProgram
  | 's' => isDirectory || content.any (!·.isEmpty) || isProgram
  | _ => false

def unary (s : Setting) (letter : Char) (a : Octets) : Bool :=
  if letter = 'n' then !a.isEmpty
  else if letter = 'z' then a.isEmpty
  else fileHas s letter a

def binary (op : String) (a b : Octets) : Judge Bool := do
  match op with
  | "=" => return a == b
  | "!=" => return a != b
  | "<" => return compareOctets a b == .lt
  | ">" => return compareOctets a b == .gt
  | "-eq" => return (← integer a) == (← integer b)
  | "-ne" => return (← integer a) != (← integer b)
  | "-lt" => return (← integer a) < (← integer b)
  | "-le" => return (← integer a) ≤ (← integer b)
  | "-gt" => return (← integer b) < (← integer a)
  | "-ge" => return (← integer b) ≤ (← integer a)
  | _ => return false

/-- What a list of arguments is judged with. -/
structure Court where
  setting : Setting
  /-- Two equals signs mean the same as one, and texts are not compared by their order. -/
  equalsTwice : Bool

namespace Court

def next (c : Court) : Judge Kind := do
  return kindOf c.equalsTwice (← get)

def take (after : Octets) : Judge Octets := do
  match ← get with
  | [] => throw (after ++ ": argument expected".toList)
  | a :: args => set args; return a

/-- A single statement; `isOperand` says that the first argument is no operator. -/
def primary (c : Court) (whole : Unit → Judge Bool) (isOperand : Bool) : Judge Bool := do
  match ← if isOperand then pure .operand else c.next with
  | .finish => return false
  | .opening =>
    let _ ← take []
    if (← c.next) = .closing then
      let _ ← take []
      return false
    let v ← whole ()
    unless (← c.next) = .closing do throw "closing paren expected".toList
    let _ ← take []
    return v
  | .unary letter =>
    let op ← take []
    return unary c.setting letter (← take op)
  | _ =>
    let a ← take []
    match ← c.next with
    | .binary op =>
      let name ← take []
      let b ← take name
      binary op a b
    | _ => return !a.isEmpty

def negation (c : Court) (whole : Unit → Judge Bool) : (n : Nat) → Judge Bool
  | 0 => return false
  | n + 1 => do
    if (← c.next) = .not then
      let _ ← take []
      return !(← negation c whole n)
    else c.primary whole false

/-- Statements connected by the given operator; each one is judged. -/
def connected (c : Court) (op : Kind) (isAnd : Bool) (statement : Judge Bool) :
    (n : Nat) → Bool → Judge Bool
  | 0, v => return v
  | n + 1, v => do
    if (← c.next) = op then
      let _ ← take []
      let w ← statement
      connected c op isAnd statement n (if isAnd then v && w else v || w)
    else return v

/-- Statements of which all must be true, and lists of these of which one must be. -/
def statement (c : Court) : (depth : Nat) → (isOperand : Bool) → Judge Bool
  | 0, _ => return false
  | depth + 1, isOperand => do
    let whole := fun _ => statement c depth false
    let length := (← get).length
    let simple := c.negation whole (length + 1)
    let all (first : Judge Bool) : Judge Bool := do
      c.connected .and true simple length (← first)
    c.connected .or false (all simple) length
      (← all (if isOperand then c.primary whole true else simple))

/-- Judges all arguments. Three or four of them have a fixed form. -/
def judge (c : Court) : (n : Nat) → List Octets → Except Octets Bool
  | 0, _ => .ok false
  | _, [] => .ok false
  | n + 1, args => do
    let evaluate (isOperand : Bool) (args : List Octets) : Except Octets Bool := do
      let (v, left) ← (c.statement (args.length + 1) isOperand).run args
      match left with
      | [] => return v
      | _ =>
        let a := args.getD (args.length - left.length - 1) []
        throw (a ++ ": unexpected operator".toList)
    let isBinary := match args with
      | [_, op, _] =>
        match operator? c.equalsTwice op with
        | some (.binary _) => true
        | _ => false
      | _ => false
    if isBinary then evaluate true args
    else if args.length = 3 ∨ args.length = 4 then
      if args.head? = some ['('] ∧ args.getLast? = some [')'] then
        evaluate false args.tail.dropLast
      else if args.head? = some ['!'] then return !(← judge c n args.tail)
      else evaluate false args
    else evaluate false args

end Court

/-- Tells whether its arguments state something true. In the form with a bracket, the last argument
closes it. -/
def tool (equalsTwice : Bool) : Tool := fun s =>
  let args? := if s.name.getLast? = some '[' then
      (if s.args.getLast? = some [']'] then some s.args.dropLast else none)
    else some s.args
  match args? with
  | none => failed 2 "missing ]"
  | some args =>
    match (Court.mk s equalsTwice).judge (args.length + 1) args with
    | .ok v => { status := if v then 0 else 1 }
    | .error message => { messages := [message], status := 2 }

end Test

end Allotment.Tool
