import Allotment.Tool.Basic
import Allotment.Tool.Floating

/-!
# Pauses

`sleep` waits for as long as its arguments say together.
-/

namespace Allotment.Tool

open Text (Octets)

namespace Pause

/-- How long a pause is: so many milliseconds, or for ever. -/
inductive Length where
  | ms (n : Nat)
  | endless
deriving DecidableEq, Repr

def Length.add : Length → Length → Length
  | ms m, ms n => ms (m + n)
  | _, _ => endless

def unit? (cs : Octets) : Option Nat :=
  match cs with
  | [] | ['s'] => some 1
  | ['m'] => some 60
  | ['h'] => some 3600
  | ['d'] => some 86400
  | _ => none

def length? (cs : Octets) : Option Length :=
  match Floating.read? Floating.extended cs with
  | some (x, rest) =>
    match unit? rest, x with
    | some seconds, .finite isNegative num den =>
      if isNegative ∧ num ≠ 0 then none else some (.ms (num * seconds * 1000 / den))
    | some _, .infinite false => some .endless
    | _, _ => none
  | none => none

def tool : Tool := fun s => Attempt.settle do
  let o ← s.options {}
  if o.operands.isEmpty then throw (s.misused 1 "missing operand".toList)
  let lengths := o.operands.map fun a => (a, length? a)
  let bad := lengths.filter (·.2.isNone)
  match bad with
  | [] =>
    match (lengths.filterMap (·.2)).foldl Length.add (.ms 0) with
    | .ms n => return { pause := n }
    | .endless => return { endless := true }
  | _ =>
    let messages := bad.map fun (a, _) => "invalid time interval ".toList ++ quoted a
    throw { s.misused 1 (messages.getLastD []) with
            messages := messages.dropLast ++ (s.misused 1 (messages.getLastD [])).messages }

end Pause

end Allotment.Tool
