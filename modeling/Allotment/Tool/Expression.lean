import Allotment.Tool.Order
import Allotment.Tool.Pattern

/-!
# Expressions in arguments

`expr` works out an expression of which each argument is a part. All values are texts; arithmetic
wants texts that write integers.
-/

namespace Allotment.Tool

open Text (Octets)

namespace Expression

/-- An expression. -/
inductive Term where
  | text (cs : Octets)
  | binary (op : String) (a b : Term)
  | length (a : Term)
  | index (a b : Term)
  | substring (a b c : Term)

/-- Why there is no value. -/
inductive Fault where
  | missingAfter (arg : Octets)
  | unexpected (arg : Octets)
  | unclosed (arg : Octets)
  | notInteger
  | divisionByZero
  | badPattern

def Fault.message : Fault → Octets
  | missingAfter arg => "syntax error: missing argument after ".toList ++ quoted arg
  | unexpected arg => "syntax error: unexpected argument ".toList ++ quoted arg
  | unclosed arg => "syntax error: expecting ')' after ".toList ++ quoted arg
  | notInteger => "non-integer argument".toList
  | divisionByZero => "division by zero".toList
  | badPattern => "Invalid regular expression".toList

/-! ### Reading -/

/-- Reads arguments; the last one that was read is kept for messages. -/
abbrev Read := StateT (Octets × List Octets) (Except Fault)

def next : Read Octets := do
  match ← get with
  | (last, []) => throw (.missingAfter last)
  | (_, a :: args) => set (a, args); return a

def oneOf (ws : List String) : Read (Option String) := do
  match ← get with
  | (_, []) => return none
  | (_, a :: args) =>
    match ws.find? (·.toList = a) with
    | some w => set (a, args); return some w
    | none => return none

def levels : List (List String) :=
  [["|"], ["&"], ["<", "<=", "=", "==", "!=", ">=", ">"], ["+", "-"], ["*", "/", "%"], [":"]]

/-- An argument, an expression in parentheses, or a word with its operands. -/
def operand (whole : Unit → Read Term) : (n : Nat) → Read Term
  | 0 => do throw (.missingAfter (← get).1)
  | n + 1 => do
    let a ← next
    if a = ['('] then
      let t ← whole ()
      match ← oneOf [")"] with
      | some _ => return t
      | none =>
        match ← get with
        | (last, []) => throw (.unclosed last)
        | (_, a :: _) => throw (.unexpected a)
    else if a = ['+'] then return .text (← next)
    else if a = "length".toList then return .length (← operand whole n)
    else if a = "match".toList then
      let b ← operand whole n
      return .binary ":" b (← operand whole n)
    else if a = "index".toList then
      let b ← operand whole n
      return .index b (← operand whole n)
    else if a = "substr".toList then
      let b ← operand whole n
      let c ← operand whole n
      return .substring b c (← operand whole n)
    else if a = [')'] then throw (.unexpected a)
    else return .text a

def chain (stronger : Read Term) (ops : List String) : (n : Nat) → Term → Read Term
  | 0, t => return t
  | n + 1, t => do
    match ← oneOf ops with
    | none => return t
    | some op => chain stronger ops n (.binary op t (← stronger))

def levelled (whole : Unit → Read Term) : List (List String) → Read Term
  | [] => do operand whole ((← get).2.length + 1)
  | ops :: more => do
    let first ← levelled whole more
    chain (levelled whole more) ops ((← get).2.length + 1) first

def expression : (depth : Nat) → Read Term
  | 0 => do throw (.missingAfter (← get).1)
  | depth + 1 => levelled (fun _ => expression depth) levels

def ofArguments (args : List Octets) : Except Fault Term := do
  let (t, (_, left)) ← (expression (args.length + 1)).run ([], args)
  match left with
  | [] => return t
  | a :: _ => throw (.unexpected a)

/-! ### Values -/

def isFalse (cs : Octets) : Bool :=
  cs.isEmpty || (let ds := if cs.head? = some '-' then cs.tail else cs
    !ds.isEmpty && ds.all (· == '0'))

def integer (cs : Octets) : Except Fault Int :=
  match if cs.head? = some '+' then none else integer? cs with
  | some n => .ok n
  | none => .error .notInteger

def truth (b : Bool) : Octets :=
  if b then ['1'] else ['0']

def order (a b : Octets) : Ordering :=
  match integer a, integer b with
  | .ok m, .ok n => compare m n
  | _, _ => compareOctets a b

/-- The number of characters of the match at the beginning, or the text of the first group. -/
def matched (cs pattern : Octets) : Except Fault Octets :=
  match Pattern.ofText? {} pattern with
  | none => .error .badPattern
  | some p =>
    let hasGroup := (pattern.zip pattern.tail).contains ('\\', '(')
    match p.longest? none (Octets.characters cs.length cs) with
    | some f =>
      .ok (if hasGroup then ((f.groups.lookup 1).getD []).flatten else Octets.ofNat f.text.length)
    | none => .ok (if hasGroup then [] else ['0'])

def apply (op : String) (a b : Octets) : Except Fault Octets := do
  let arithmetic (f : Int → Int → Int) : Except Fault Octets := do
    return Octets.ofInt (f (← integer a) (← integer b))
  let comparison (p : Ordering → Bool) : Except Fault Octets := return truth (p (order a b))
  match op with
  | "<" => comparison (· == .lt)
  | "<=" => comparison (· != .gt)
  | "=" | "==" => comparison (· == .eq)
  | "!=" => comparison (· != .eq)
  | ">=" => comparison (· != .lt)
  | ">" => comparison (· == .gt)
  | "+" => arithmetic (· + ·)
  | "-" => arithmetic (· - ·)
  | "*" => arithmetic (· * ·)
  | ":" => matched a b
  | _ =>
    let m ← integer a
    let n ← integer b
    if n = 0 then throw .divisionByZero
    return Octets.ofInt (if op = "/" then m.tdiv n else m.tmod n)

/-- The value of an expression. The second operand of the words for "or" and "and" is looked at only
if it matters. -/
def eval : Term → Except Fault Octets
  | .text cs => .ok cs
  | .binary op a b => do
    let x ← eval a
    if op = "|" then
      if isFalse x then
        let y ← eval b
        return if isFalse y then ['0'] else y
      else return x
    else if op = "&" then
      if isFalse x then return ['0']
      else return if isFalse (← eval b) then ['0'] else x
    else apply op x (← eval b)
  | .length a => do
    let x ← eval a
    return Octets.ofNat (Octets.characters x.length x).length
  | .index a b => do
    let x ← eval a
    let ys ← eval b
    let ys := Octets.characters ys.length ys
    return Octets.ofNat (((Octets.characters x.length x).findIdx? (· ∈ ys)).elim 0 (· + 1))
  | .substring a b c => do
    let x ← eval a
    let start ← eval b
    let count ← eval c
    match integer start, integer count with
    | .ok m, .ok n =>
      if m < 1 ∨ n < 1 then return []
      return (((Octets.characters x.length x).drop (m - 1).toNat).take n.toNat).flatten
    | _, _ => return []

/-- Prints the value of its arguments. The status tells whether it counts as true. -/
def tool : Tool := fun s =>
  let args := if s.args.head? = some ['-', '-'] then s.args.tail else s.args
  if args.isEmpty then s.misused 2 "missing operand".toList
  else
    match (ofArguments args).bind eval with
    | .ok v => { output := v ++ ['\n'], status := if isFalse v then 1 else 0 }
    | .error e => { messages := [e.message], status := 2 }

end Expression

end Allotment.Tool
