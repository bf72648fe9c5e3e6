import Allotment.Tool.Order

/-!
# Comparisons

`cmp` tells where two files differ, and `comm` which lines of two sorted files both have.
-/

namespace Allotment.Tool

open Text (Octets)

namespace Compare

def both (s : Setting) (status : Nat) (a b : Octets) : Except Outcome (Octets × Octets) := do
  let sources := s.sources [a, b]
  match sources.contents with
  | [(_, x), (_, y)] => return (x, y)
  | _ => throw { messages := sources.messages.take 1, status }

/-- How many octets two texts have in common at their beginnings. -/
def common : Octets → Octets → Nat
  | a :: as, b :: bs => if a = b then common as bs + 1 else 0
  | _, _ => 0

def octets : Tool := fun s => Attempt.settle do
  let o ← s.options { flags := "sblz", words := [("silent", 's'), ("quiet", 's')], misuse := 2 }
  let (a, b) ← match o.operands with
    | [] => throw (s.misused 2 "missing operand after 'cmp'".toList)
    | [a] => pure (a, ['-'])
    | a :: b :: _ => pure (a, b)
  let (x, y) ← both s 2 a b
  let waits := if isInput a ∨ isInput b then .all else .nothing
  let n := common x y
  if x = y then return { waits }
  if n = x.length ∨ n = y.length then
    let shorter := if n = x.length then a else b
    let message := "EOF on ".toList ++ shorter ++
      (if n = 0 then " which is empty".toList else " after byte ".toList ++ Octets.ofNat n)
    return { messages := if o.has 's' then [] else [message], status := 1, waits }
  let told := a ++ ' ' :: b ++ " differ: byte ".toList ++ Octets.ofNat (n + 1) ++
    ", line ".toList ++ Octets.ofNat ((x.take n).count '\n' + 1) ++ ['\n']
  return { output := if o.has 's' then [] else told, status := 1, waits }

/-- Lines of two sorted lists in columns: those of the first, those of the second, and those of
both. -/
def columns (shown : Nat → Option Octets) : (fuel : Nat) → List Octets → List Octets → Octets
  | 0, _, _ => []
  | _, [], [] => []
  | n + 1, a :: as, [] => put 1 a ++ columns shown n as []
  | n + 1, [], b :: bs => put 2 b ++ columns shown n [] bs
  | n + 1, a :: as, b :: bs =>
    if a = b then put 3 a ++ columns shown n as bs
    else if compareOctets a b = .lt then put 1 a ++ columns shown n as (b :: bs)
    else put 2 b ++ columns shown n (a :: as) bs
where
  put (column : Nat) (l : Octets) : Octets :=
    (shown column).elim [] fun lead => lead ++ l ++ ['\n']

/-- Prints which lines two sorted files have for themselves and in common. -/
def lines : Tool := fun s => Attempt.settle do
  let o ← s.options { flags := "123z" }
  match o.operands with
  | [a, b] =>
    let (x, y) ← both s 1 a b
    let isLeftOut (c : Char) : Bool := o.has c
    let lead (column : Nat) : Option Octets :=
      match column with
      | 1 => if isLeftOut '1' then none else some []
      | 2 => if isLeftOut '2' then none else some (if isLeftOut '1' then [] else ['\t'])
      | _ =>
        if isLeftOut '3' then none
        else some ((if isLeftOut '1' then [] else ['\t']) ++ if isLeftOut '2' then [] else ['\t'])
    let ls := x.lines
    let ms := y.lines
    return {
      output := columns lead (ls.length + ms.length) ls ms
      waits := if isInput a ∨ isInput b then .all else .nothing }
  | [] => throw (s.misused 1 "missing operand".toList)
  | [a] => throw (s.misused 1 ("missing operand after ".toList ++ quoted a))
  | _ :: _ :: extra :: _ => throw (s.misused 1 ("extra operand ".toList ++ quoted extra))

end Compare

end Allotment.Tool
