import Allotment.Text.OctetClass
import Allotment.Text.Radix
import Allotment.Word

/-!
# Arithmetic of the shell

Expressions over signed words of 64 bits, as they stand between double parentheses. Reading an
expression and working it out are kept apart, for what is not chosen by a condition is read all the
same, but changes nothing.
-/

namespace Allotment.Shell

open Text (Octets)

/-- The operators with two operands. -/
inductive Operator where
  | times | quotient | remainder
  | plus | minus
  | shiftLeft | shiftRight
  | less | lessOrEqual | greater | greaterOrEqual
  | equal | unequal
  | bitAnd | bitXor | bitOr
  | and | or
deriving DecidableEq, Repr

/-- An arithmetic expression. -/
inductive Arithmetic where
  | number (n : Int)
  | named (name : Octets)
  | negative (e : Arithmetic)
  | complement (e : Arithmetic)
  | not (e : Arithmetic)
  | binary (op : Operator) (a b : Arithmetic)
  | choice (condition a b : Arithmetic)
  /-- Gives a variable the value, combined with the old one by an operator if there is one. -/
  | assign (name : Octets) (op : Option Operator) (e : Arithmetic)
deriving Repr

namespace Operator

/-- The operators by how strongly they bind, the weakest first. Of two operators of which one
begins the other, the longer one comes first. -/
def levels : List (List (String × Operator)) :=
  [[("||", .or)], [("&&", .and)], [("|", .bitOr)], [("^", .bitXor)], [("&", .bitAnd)],
    [("==", .equal), ("!=", .unequal)],
    [("<=", .lessOrEqual), (">=", .greaterOrEqual), ("<", .less), (">", .greater)],
    [("<<", .shiftLeft), (">>", .shiftRight)],
    [("+", .plus), ("-", .minus)],
    [("*", .times), ("/", .quotient), ("%", .remainder)]]

/-- The operators that can stand before the equals sign of an assignment. -/
def assigning : List (String × Operator) :=
  [("+", .plus), ("-", .minus), ("*", .times), ("/", .quotient), ("%", .remainder),
    ("<<", .shiftLeft), (">>", .shiftRight), ("&", .bitAnd), ("^", .bitXor), ("|", .bitOr)]

def truth (b : Bool) : Int :=
  if b then 1 else 0

def bitwise (f : BitVec 64 → BitVec 64 → BitVec 64) (a b : Int) : Int :=
  (f (BitVec.ofInt 64 a) (BitVec.ofInt 64 b)).toInt

def result? (op : Operator) (a b : Int) : Option Int :=
  let wrap := Word.word64.wrap
  match op with
  | times => some (wrap (a * b))
  | quotient => if b = 0 then none else some (wrap (a.tdiv b))
  | remainder => if b = 0 then none else some (wrap (a.tmod b))
  | plus => some (wrap (a + b))
  | minus => some (wrap (a - b))
  | shiftLeft => some (wrap (a * Nat.pow 2 (b % 64).toNat))
  | shiftRight => some (a / Nat.pow 2 (b % 64).toNat)
  | less => some (truth (a < b))
  | lessOrEqual => some (truth (a ≤ b))
  | greater => some (truth (b < a))
  | greaterOrEqual => some (truth (b ≤ a))
  | equal => some (truth (a = b))
  | unequal => some (truth (a ≠ b))
  | bitAnd => some (bitwise (· &&& ·) a b)
  | bitXor => some (bitwise (· ^^^ ·) a b)
  | bitOr => some (bitwise (· ||| ·) a b)
  | and => some (truth (a ≠ 0 ∧ b ≠ 0))
  | or => some (truth (a ≠ 0 ∨ b ≠ 0))

end Operator

namespace Arithmetic

/-- The numeral at the beginning of a text, stopped at the bounds of a word of 64 bits, and what
follows. -/
def numeral? (cs : Octets) : Option (Int × Octets) :=
  (Text.Radix.natural? cs).map fun (n, rest) => (Word.word64.clamp n, rest)

/-- The integer that a text writes from beginning to end, with space around it and a sign. Digits
of the wrong kind and empty text are no integer. -/
def integer? (cs : Octets) : Option Int :=
  let cs := cs.dropWhile Octets.isSpace
  let (isNegative, cs) := match cs with
    | '-' :: cs => (true, cs)
    | '+' :: cs => (false, cs)
    | cs => (false, cs)
  match numeral? cs with
  | some (n, rest) =>
    if rest.all Octets.isSpace then
      some (Word.word64.clamp (if isNegative then -n else n))
    else none
  | none => none

/-! ### Reading -/

abbrev Read := StateT Octets Option

def accept (w : String) : Read Bool := do
  let cs := (← get).dropWhile Octets.isSpace
  if w.toList.isPrefixOf cs then
    set (cs.drop w.length)
    return true
  else
    set cs
    return false

/-- The operator of a level that comes next. An operator that goes on as another one, or that
assigns, is not meant. -/
def operator? (level : List (String × Operator)) : Read (Option Operator) := do
  let cs := (← get).dropWhile Octets.isSpace
  let found := level.find? fun (w, op) =>
    w.toList.isPrefixOf cs &&
      match cs.drop w.length with
      | c :: _ =>
        !(c == '=' && Operator.assigning.any fun (v, _) => v == w) &&
          !(w == "|" && c == '|') && !(w == "&" && c == '&') &&
          !((w == "<" || w == ">") && w.toList == [c]) && op == op
      | [] => true
  match found with
  | some (w, op) => set (cs.drop w.length); return some op
  | none => return none

/-- Reads what is between operators, given a reader for whole expressions. -/
def operand (whole : Unit → Read Arithmetic) : (n : Nat) → Read Arithmetic
  | 0 => failure
  | n + 1 => do
    if ← accept "(" then
      let e ← whole ()
      unless ← accept ")" do failure
      return e
    else if ← accept "-" then return .negative (← operand whole n)
    else if ← accept "+" then operand whole n
    else if ← accept "~" then return .complement (← operand whole n)
    else if ← accept "!" then return .not (← operand whole n)
    else
      let cs ← get
      let name := cs.takeWhile Text.Octets.isNameChar
      if Text.Octets.isName name then
        set (cs.drop name.length)
        return .named name
      else
        match numeral? cs with
        | some (m, rest) => set rest; return .number m
        | none => failure

def chain (next : Read Arithmetic) (level : List (String × Operator)) :
    (n : Nat) → Arithmetic → Read Arithmetic
  | 0, _ => failure
  | n + 1, left => do
    match ← operator? level with
    | none => return left
    | some op => chain next level n (.binary op left (← next))

def levelled (whole : Unit → Read Arithmetic) : List (List (String × Operator)) → Read Arithmetic
  | [] => do operand whole ((← get).length + 1)
  | level :: stronger => do
    let first ← levelled whole stronger
    chain (levelled whole stronger) level ((← get).length + 1) first

def assignment? (whole : Unit → Read Arithmetic) : Read (Option Arithmetic) := do
  let before ← get
  let cs := before.dropWhile Octets.isSpace
  let name := cs.takeWhile Text.Octets.isNameChar
  if ¬Text.Octets.isName name then return none
  let after := (cs.drop name.length).dropWhile Octets.isSpace
  let op := Operator.assigning.find? fun (w, _) => (w ++ "=").toList.isPrefixOf after
  match op, after with
  | some (w, op), _ =>
    set (after.drop (w.length + 1))
    return some (.assign name (some op) (← whole ()))
  | none, '=' :: rest =>
    if rest.head? = some '=' then return none
    set rest
    return some (.assign name none (← whole ()))
  | none, _ => return none

def expression : (depth : Nat) → Read Arithmetic
  | 0 => failure
  | depth + 1 => do
    if let some e ← assignment? fun _ => expression depth then return e
    let condition ← levelled (fun _ => expression depth) Operator.levels
    if ← accept "?" then
      let a ← expression depth
      unless ← accept ":" do failure
      return .choice condition a (← expression depth)
    else return condition

def read? (cs : Octets) : Option Arithmetic :=
  match expression (cs.length + 1) cs with
  | some (e, rest) => if rest.all Octets.isSpace then some e else none
  | none => none

/-! ### Values -/

/-- Works an expression out, given the values of variables, and changes these as it says. There is
no result if it divides by zero or a variable is no integer. -/
def eval {σ : Type} (look : σ → Octets → Option Int) (put : σ → Octets → Int → σ) :
    Arithmetic → StateT σ Option Int
  | number n => return n
  | named name => do
    match look (← get) name with
    | some n => return n
    | none => failure
  | negative e => do return Word.word64.wrap (-(← eval look put e))
  | complement e => do return -(← eval look put e) - 1
  | not e => do return Operator.truth ((← eval look put e) = 0)
  | binary op a b => do
    let x ← eval look put a
    if op = .and ∧ x = 0 then return 0
    if op = .or ∧ x ≠ 0 then return 1
    let y ← eval look put b
    match op.result? x y with
    | some n => return n
    | none => failure
  | choice condition a b => do
    if (← eval look put condition) ≠ 0 then eval look put a else eval look put b
  | assign name op e => do
    let y ← eval look put e
    let n ← match op with
      | none => pure y
      | some op =>
        match (look (← get) name).bind fun x => op.result? x y with
        | some n => pure n
        | none => failure
    modify fun s => put s name n
    return n

end Arithmetic

end Allotment.Shell
