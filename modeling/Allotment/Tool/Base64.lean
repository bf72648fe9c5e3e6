import Allotment.Text.OctetClass
import Allotment.Tool.Basic

/-!
# Octets in letters

`base64` writes each three octets as four letters, and reads them back.
-/

namespace Allotment.Tool

open Text (Octets)

namespace Base64

def alphabet : List Char :=
  "ABCDEFGHIJKLMNOPQRSTUVWXYZabcdefghijklmnopqrstuvwxyz0123456789+/".toList

def letter (n : Nat) : Char :=
  alphabet.getD (n % 64) 'A'

/-- Octets in letters, with equals signs for what the last four letters lack. -/
def encode : Octets → Octets
  | a :: b :: c :: cs =>
    let n := (a.toNat * 0x100 + b.toNat) * 0x100 + c.toNat
    letter (n / 0x40000) :: letter (n / 0x1000) :: letter (n / 0x40) :: letter n :: encode cs
  | [a, b] =>
    let n := (a.toNat * 0x100 + b.toNat) * 0x100
    [letter (n / 0x40000), letter (n / 0x1000), letter (n / 0x40), '=']
  | [a] =>
    let n := a.toNat * 0x10000
    [letter (n / 0x40000), letter (n / 0x1000), '=', '=']
  | [] => []

/-- The octets that letters write, and whether they are well formed. -/
def decode : Octets → Octets × Bool
  | a :: b :: '=' :: '=' :: cs =>
    match value? a, value? b with
    | some x, some y => ([Char.ofNat (x * 4 + y / 16)], cs.isEmpty)
    | _, _ => ([], false)
  | a :: b :: c :: '=' :: cs =>
    match value? a, value? b, value? c with
    | some x, some y, some z =>
      ([Char.ofNat (x * 4 + y / 16), Char.ofNat (y % 16 * 16 + z / 4)], cs.isEmpty)
    | _, _, _ => ([], false)
  | a :: b :: c :: d :: cs =>
    match value? a, value? b, value? c, value? d with
    | some x, some y, some z, some w =>
      let (rest, ok) := decode cs
      (Char.ofNat (x * 4 + y / 16) :: Char.ofNat (y % 16 * 16 + z / 4) ::
        Char.ofNat (z % 4 * 64 + w) :: rest, ok)
    | _, _, _, _ => ([], false)
  | [] => ([], true)
  | [a, b, c] =>
    match value? a, value? b, value? c with
    | some x, some y, some z =>
      ([Char.ofNat (x * 4 + y / 16), Char.ofNat (y % 16 * 16 + z / 4)], false)
    | _, _, _ => ([], false)
  | [a, b] =>
    match value? a, value? b with
    | some x, some y => ([Char.ofNat (x * 4 + y / 16)], false)
    | _, _ => ([], false)
  | _ => ([], false)
where
  value? (c : Char) : Option Nat :=
    alphabet.findIdx? (· == c)

def wrap (width : Nat) : (fuel : Nat) → Octets → Octets
  | 0, cs => cs
  | n + 1, cs =>
    if cs.isEmpty then [] else cs.take width ++ '\n' :: wrap width n (cs.drop width)

def tool : Tool := fun s => Attempt.settle do
  let o ← s.options
    { flags := "di", valued := "w"
      words := [("decode", 'd'), ("ignore-garbage", 'i'), ("wrap", 'w')] }
  let sources := s.sources (o.operands.take 1)
  let text := sources.text
  if o.has 'd' then
    let (octets, ok) := decode (text.filter (· != '\n'))
    if ok then return sources.outcome octets
    return { sources.outcome octets with messages := ["invalid input".toList], status := 1 }
  let width := ((o.value? 'w').bind natural?).getD 76
  let letters := encode text
  return sources.outcome (if width = 0 then letters else wrap width letters.length letters)

end Base64

end Allotment.Tool
