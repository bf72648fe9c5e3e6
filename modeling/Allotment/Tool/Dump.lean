import Allotment.Text.Radix
import Allotment.Tool.Basic

/-!
# Dumps

`od` shows what octets a source holds: as numbers of one or more octets, or as characters.
-/

namespace Allotment.Tool

open Text (Octets)

namespace Dump

/-- How octets are shown. -/
inductive Form where
  /-- As characters, or by names or numbers. -/
  | characters
  /-- As numbers of so many octets in a base. -/
  | numbers (size base : Nat)
  /-- As numbers in decimal that may be negative. -/
  | signed (size : Nat)
deriving DecidableEq, Repr

def Form.size : Form → Nat
  | characters => 1
  | numbers size _ => size
  | signed size => size

def Form.width : Form → Nat
  | characters => 3
  | numbers size base => (Nat.toDigits base (Nat.pow 256 size - 1)).length
  | signed size => (Nat.toDigits 10 (Nat.pow 256 size / 2)).length + 1

def character (c : Char) : Octets :=
  match c with
  | '\x00' => ['\\', '0']
  | '\x07' => ['\\', 'a']
  | '\x08' => ['\\', 'b']
  | '\t' => ['\\', 't']
  | '\n' => ['\\', 'n']
  | '\x0b' => ['\\', 'v']
  | '\x0c' => ['\\', 'f']
  | '\r' => ['\\', 'r']
  | c =>
    if 0x20 ≤ c.toNat ∧ c.toNat < 0x7F then [c]
    else
      let ds := Nat.toDigits 8 c.toNat
      List.replicate (3 - ds.length) '0' ++ ds

/-- Octets that are shown together; the first of them counts least. -/
def Form.text (f : Form) (unit : Octets) : Octets :=
  let n := unit.foldr (fun c n => n * 256 + c.toNat) 0
  match f with
  | characters => character (unit.headD ' ')
  | numbers _ base =>
    let ds := Nat.toDigits base n
    if base = 10 then ds else List.replicate (f.width - ds.length) '0' ++ ds
  | signed size =>
    if n < Nat.pow 256 size / 2 then Octets.ofNat n
    else Octets.ofInt ((n : Int) - (Nat.pow 256 size : Nat))

/-- Octets in groups of so many, the last one with zeros for what it lacks. -/
def units (size : Nat) : (fuel : Nat) → Octets → List Octets
  | 0, _ => []
  | _, [] => []
  | n + 1, cs =>
    let unit := cs.take size
    (unit ++ List.replicate (size - unit.length) '\x00') :: units size n (cs.drop size)

/-- A row of octets in one form, where a whole row takes the given width. -/
def Form.row (f : Form) (perRow width : Nat) (cs : Octets) : Octets :=
  let count := perRow / f.size
  let blanks := width - f.width * count
  let shown := (units f.size cs.length cs).map f.text
  (shown.zipIdx.map fun (cs, k) =>
    let before := blanks * (count - k) / count - blanks * (count - k - 1) / count
    padLeft (f.width + before) cs).flatten

def rowText (forms : List Form) (lead : Octets) (perRow : Nat) (cs : Octets) : Octets :=
  let width := (forms.map fun f => (f.width + 1) * (perRow / f.size)).foldl max 0
  (forms.zipIdx.map fun (f, k) =>
    (if k = 0 then lead else List.replicate lead.length ' ') ++ f.row perRow width cs ++
      ['\n']).flatten

def form? (cs : Octets) : Option (Form × Octets) :=
  let sized (usual : Nat) (make : Nat → Form) (cs : Octets) : Option (Form × Octets) :=
    let (ds, rest) := Text.Radix.split 10 cs
    let size := if ds.isEmpty then usual else Text.Radix.value 10 ds
    if size ∈ [1, 2, 4, 8] then some (make size, rest)
    else none
  match cs with
  | 'c' :: cs => some (.characters, cs)
  | 'o' :: cs => sized 4 (.numbers · 8) cs
  | 'x' :: cs => sized 4 (.numbers · 16) cs
  | 'u' :: cs => sized 4 (.numbers · 10) cs
  | 'd' :: cs => sized 4 .signed cs
  | _ => none

def forms? : (fuel : Nat) → Octets → Option (List Form)
  | 0, _ => none
  | _, [] => some []
  | n + 1, cs => do
    let (f, rest) ← form? cs
    return f :: (← forms? n rest)

def lead (base? : Option Nat) (n : Nat) : Octets :=
  match base? with
  | none => []
  | some base =>
    let ds := Nat.toDigits base n
    List.replicate ((if base = 16 then 6 else 7) - ds.length) '0' ++ ds

/-- Rows of octets, where rows that are the same as the one before them are left out. -/
def rows (forms : List Form) (showsAll : Bool) (base? : Option Nat) (perRow : Nat) :
    (fuel : Nat) → (place : Nat) → (before : Option Octets) → (isLeftOut : Bool) → Octets → Octets
  | 0, _, _, _, _ => []
  | n + 1, place, before, isLeftOut, cs =>
    if cs.isEmpty then
      if base?.isNone then [] else lead base? place ++ ['\n']
    else
      let row := cs.take perRow
      let rest := cs.drop perRow
      if before = some row ∧ ¬showsAll ∧ row.length = perRow then
        (if isLeftOut then [] else ['*', '\n']) ++
          rows forms showsAll base? perRow n (place + row.length) before true rest
      else
        rowText forms (lead base? place) perRow row ++
          rows forms showsAll base? perRow n (place + row.length) (some row) false rest

def tool : Tool := fun s => Attempt.settle do
  let o ← s.options
    { flags := "abcdoxvisl", valued := "tAjNwS"
      words := [("format", 't'), ("address-radix", 'A'), ("skip-bytes", 'j'),
        ("read-bytes", 'N'), ("output-duplicates", 'v'), ("width", 'w')] }
  let short : List (Char × Form) :=
    [('b', .numbers 1 8), ('c', .characters), ('d', .numbers 2 10), ('o', .numbers 2 8),
      ('x', .numbers 2 16), ('i', .signed 4), ('s', .signed 2), ('l', .signed 8)]
  let chosen ← o.given.mapM fun (c, value) =>
    if c = 't' then
      match forms? (value.length + 1) value with
      | some fs => .ok fs
      | none => .error (failed 1 "invalid type string")
    else .ok (short.lookup c).toList
  let forms := if chosen.flatten.isEmpty then [Form.numbers 2 8] else chosen.flatten
  let base? ← match o.value? 'A' with
    | none | some ['o'] => pure (some 8)
    | some ['d'] => pure (some 10)
    | some ['x'] => pure (some 16)
    | some ['n'] => pure none
    | some a => throw (failed 1
        ("invalid output address radix '" ++ String.ofList a ++
          "'; it must be one character from [doxn]"))
  let number (c : Char) : Option Nat := (o.value? c).bind natural?
  let sources := s.sources o.operands
  let skipped := (number 'j').getD 0
  let text := sources.text.drop skipped
  let text := (number 'N').elim text text.take
  let perRow := max ((number 'w').getD 16) 1
  return { sources.outcome
      (rows forms (o.has 'v') base? perRow (text.length + 1) skipped none false text) with
    isPrompt := false }

end Dump

end Allotment.Tool
