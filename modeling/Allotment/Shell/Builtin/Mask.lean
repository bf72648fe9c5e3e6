import Allotment.Shell.Builtin.Basic

/-!
# The mask of new files

Nine bits say what nobody may do with new files: the owner, the group and the others may read, write
or execute. The mask is given in octal or by clauses that say what may be done.
-/

namespace Allotment.Shell

open Text (Octets)

namespace Mask

def bits (letters : Octets) : Nat :=
  (if 'r' ∈ letters then 4 else 0) + (if 'w' ∈ letters then 2 else 0) +
    if 'x' ∈ letters then 1 else 0

def letters (n : Nat) : Octets :=
  (if n / 4 % 2 = 1 then ['r'] else []) ++ (if n / 2 % 2 = 1 then ['w'] else []) ++
    if n % 2 = 1 then ['x'] else []

def clauses (mask : Nat) : Octets :=
  let part (who : Char) (shift : Nat) : Octets := who :: '=' :: letters (7 - mask / shift % 8)
  [','].intercalate [part 'u' 64, part 'g' 8, part 'o' 1]

def changed (op : Char) (given old : Nat) : Nat :=
  if op = '=' then given
  else if op = '+' then old ||| given
  else old &&& (7 - given)

def afterClause? (mask : Nat) (clause : Octets) : Option Nat :=
  let who := clause.takeWhile (· ∈ ['u', 'g', 'o', 'a'])
  match clause.drop who.length with
  | op :: perms =>
    if op ∉ ['=', '+', '-'] ∨ perms.any (· ∉ ['r', 'w', 'x', 'X', 's', 't']) then none
    else
      let isMeant (c : Char) : Bool := who.isEmpty || who.contains 'a' || who.contains c
      let part (c : Char) (shift : Nat) : Nat :=
        let allowed := 7 - mask / shift % 8
        (7 - if isMeant c then changed op (bits perms) allowed else allowed) * shift
      some (part 'u' 64 + part 'g' 8 + part 'o' 1)
  | [] => none

def read? (mask : Nat) (a : Octets) : Option Nat :=
  if a.head?.any Char.isDigit then
    if a.all fun c => '0' ≤ c && c ≤ '7' then some (Text.Radix.value 8 a % 512) else none
  else
    (Octets.splitOn ',' a).foldlM afterClause? mask

end Mask

namespace Builtin

def umask : Builtin := fun args => do
  let mask := (← Exec.env).mask
  match args with
  | [] =>
    let ds := Nat.toDigits 8 mask
    let _ ← Exec.write 1 (List.replicate (4 - ds.length) '0' ++ ds ++ ['\n'])
    return 0
  | ['-', 'S'] :: _ =>
    let _ ← Exec.write 1 (Mask.clauses mask ++ ['\n'])
    return 0
  | a :: _ =>
    match Mask.read? mask a with
    | some n =>
      Exec.change fun e => { e with mask := n }
      return 0
    | none =>
      let what := if a.head?.any Char.isDigit then "Illegal number: " else "Illegal mode: "
      complain "umask" (what.toList ++ a)

end Builtin

end Allotment.Shell
