import Allotment.Text.OctetClass
import Allotment.Tool.Basic

/-!
# Translating octets

`tr` replaces octets of one set by those of another, deletes them, or leaves out repetitions. Sets
are written with ranges, classes, escapes and repetitions.
-/

namespace Allotment.Tool

open Text (Octets)

namespace Translate

/-- A part of a set. -/
inductive Item where
  | octets (cs : Octets)
  | named (name : String)
  /-- An octet as often as is needed. -/
  | repeated (c : Char)

/-- The octet at the beginning of a text, with or without an escape, and what follows. -/
def octet? : Octets → Option (Char × Octets)
  | [] => none
  | ['\\'] => some ('\\', [])
  | '\\' :: c :: cs =>
    let (ds, rest) := Text.Radix.splitAtMost 3 8 (c :: cs)
    if ¬ds.isEmpty then
      let n := Text.Radix.value 8 ds
      if n < 256 then some (Char.ofNat n, rest)
      else some (Char.ofNat (n / 8), ds.drop 2 ++ rest)
    else
      match c with
      | 'a' => some ('\x07', cs)
      | 'b' => some ('\x08', cs)
      | 'f' => some ('\x0c', cs)
      | 'n' => some ('\n', cs)
      | 'r' => some ('\r', cs)
      | 't' => some ('\t', cs)
      | 'v' => some ('\x0b', cs)
      | _ => some (c, cs)
  | c :: cs => some (c, cs)

/-- What stands before the given two characters, and what follows them. -/
def upTo (a b : Char) : Octets → Option (Octets × Octets)
  | c :: d :: cs =>
    if c = a ∧ d = b then some ([], cs)
    else (upTo a b (d :: cs)).map fun (before, rest) => (c :: before, rest)
  | _ => none

/-- The item that begins with an opening bracket, and what follows. -/
def bracketed? (cs : Octets) : Option (Item × Octets) :=
  match cs with
  | '[' :: ':' :: rest =>
    (upTo ':' ']' rest).bind fun (name, rest) =>
      if (Octets.class? (String.ofList name)).isSome then
        some (.named (String.ofList name), rest)
      else none
  | '[' :: '=' :: c :: '=' :: ']' :: rest => some (.octets [c], rest)
  | '[' :: rest =>
    match octet? rest with
    | some (c, '*' :: rest) =>
      let (ds, rest) := Text.Radix.split 10 rest
      match rest with
      | ']' :: rest =>
        let n := Text.Radix.value (if ds.head? = some '0' then 8 else 10) ds
        some (if n = 0 then .repeated c else .octets (List.replicate n c), rest)
      | _ => none
    | _ => none
  | _ => none

def between (a b : Char) : Octets :=
  (List.range (b.toNat + 1 - a.toNat)).map fun n => Char.ofNat (a.toNat + n)

/-- The items that a text writes, unless a range of it is backwards. -/
def items : (n : Nat) → Octets → Except Octets (List Item)
  | 0, _ => .ok []
  | _, [] => .ok []
  | n + 1, cs =>
    match bracketed? cs with
    | some (item, rest) => do return item :: (← items n rest)
    | none =>
      match octet? cs with
      | none => .ok []
      | some (a, rest) =>
        match rest with
        | '-' :: after =>
          match octet? after with
          | some (b, rest) =>
            if a ≤ b then do return .octets (between a b) :: (← items n rest)
            else .error ("range-endpoints of '".toList ++ cs.take (cs.length - rest.length) ++
              "' are in reverse collating sequence order".toList)
          | none => do return .octets [a] :: (← items n rest)
        | _ => do return .octets [a] :: (← items n rest)

def all : Octets :=
  (List.range 256).map Char.ofNat

/-- The octets of an item; one that fills up what is needed has as many as are given. -/
def Item.octetsOf (missing : Nat) : Item → Octets
  | octets cs => cs
  | named name => all.filter ((Octets.class? name).getD fun _ => false)
  | repeated c => List.replicate missing c

def expand (size : Nat) (set : List Item) : Octets :=
  let fixed := (set.flatMap (Item.octetsOf 0)).length
  set.flatMap (Item.octetsOf (size - fixed))

/-- The pairs of octets that the classes of letters make: each in one case and in the other. -/
def casePairs? : List Item → List Item → Option (List (Char × Char))
  | [.named "lower"], [.named "upper"] => some (pairs 'a' 'A')
  | [.named "upper"], [.named "lower"] => some (pairs 'A' 'a')
  | _, _ => none
where
  pairs (a b : Char) : List (Char × Char) :=
    (List.range 26).map fun n => (Char.ofNat (a.toNat + n), Char.ofNat (b.toNat + n))

/-- The pairs of octets of two sets. The last octet of the second one stands for all that it
lacks. -/
def pairs (first second : Octets) : List (Char × Char) :=
  match second.getLast? with
  | none => []
  | some c =>
    first.zip (second ++ List.replicate (first.length - second.length) c)

def replace (ps : List (Char × Char)) (text : Octets) : Octets :=
  let table := ps.reverse
  text.map fun c => (table.lookup c).getD c

def squeeze (set : Octets) : Option Char → Octets → Octets
  | _, [] => []
  | before, c :: cs =>
    if before = some c ∧ c ∈ set then squeeze set before cs else c :: squeeze set (some c) cs

def tool : Tool := fun s => Attempt.settle do
  let o ← s.options
    { flags := "cCdst", anywhere := false
      words := [("complement", 'c'), ("delete", 'd'), ("squeeze-repeats", 's'),
        ("truncate-set1", 't')] }
  let read (cs : Octets) : Except Outcome (List Item) :=
    (items (cs.length + 1) cs).mapError fun message => { messages := [message], status := 1 }
  let whole (text : Octets) : Outcome := { output := text, waits := .all, isPrompt := true }
  let complemented := o.has 'c' || o.has 'C'
  let complement (cs : Octets) : Octets :=
    if complemented then all.filter fun c => c ∉ cs else cs
  let deletes := o.has 'd'
  let squeezes := o.has 's'
  match o.operands with
  | [] => throw (s.misused 1 "missing operand".toList)
  | [a] =>
    let first := complement (expand 0 (← read a))
    if deletes ∧ ¬squeezes then return whole (s.input.filter fun c => c ∉ first)
    else if squeezes ∧ ¬deletes then return whole (squeeze first none s.input)
    else
      throw (s.misused 1 ("missing operand after ".toList ++ quoted a ++
        (if deletes then "\nTwo strings must be given when both deleting and squeezing repeats."
          else "\nTwo strings must be given when translating.").toList))
  | [a, b] =>
    let firstItems ← read a
    let secondItems ← read b
    let first := complement (expand 0 firstItems)
    let second := expand first.length secondItems
    if deletes then
      if squeezes then
        return whole (squeeze second none (s.input.filter fun c => c ∉ first))
      else
        throw (s.misused 1 ("extra operand ".toList ++ quoted b ++
          "\nOnly one string may be given when deleting without squeezing repeats.".toList))
    if second.isEmpty ∧ ¬first.isEmpty then
      throw (failed 1 "when not truncating set1, string2 must be non-empty")
    let table := match if complemented then none else casePairs? firstItems secondItems with
      | some ps => ps
      | none => if o.has 't' then first.zip second else pairs first second
    let text := replace table s.input
    return whole (if squeezes then squeeze second none text else text)
  | _ :: _ :: c :: _ => throw (s.misused 1 ("extra operand ".toList ++ quoted c))

end Translate

end Allotment.Tool
