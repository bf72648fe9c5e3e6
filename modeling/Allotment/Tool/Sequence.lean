import Allotment.Tool.Basic
import Allotment.Tool.Directive

/-!
# Numbers in a row

`seq` prints numbers from one to another, `factor` prints prime factors, and `yes` prints the same
line for ever.
-/

namespace Allotment.Tool

open Text (Octets)

namespace Sequence

/-- A decimal numeral: an integer in units of a negative power of ten, and how it is written. -/
structure Step where
  units : Int
  places : Nat
  /-- How many characters stand before the point. -/
  before : Nat

def step? (cs : Octets) : Option Step :=
  let cs := cs.dropWhile Octets.isSpace
  let (isNegative, ds) := match cs with
    | '-' :: ds => (true, ds)
    | '+' :: ds => (false, ds)
    | _ => (false, cs)
  if Floating.beginsWith "0x" ds then
    let (digits, rest) := Text.Radix.split 16 (ds.drop 2)
    let n : Int := Text.Radix.value 16 digits
    if digits.isEmpty ∨ ¬rest.isEmpty then none
    else some ⟨if isNegative then -n else n, 0, cs.length⟩
  else
    let (whole, rest) := Text.Radix.split 10 ds
    let (fraction, rest) := match rest with
      | '.' :: ds => Text.Radix.split 10 ds
      | _ => ([], rest)
    if whole.isEmpty ∧ fraction.isEmpty then none
    else
      let n : Int := Text.Radix.value 10 (whole ++ fraction)
      let signed := if isNegative then -n else n
      let written : Step :=
        ⟨signed, fraction.length, max whole.length 1 + if isNegative then 1 else 0⟩
      match rest with
      | [] => some written
      | e :: ds =>
        if e = 'e' ∨ e = 'E' then
          (integer? ds).bind fun e =>
            if e.natAbs ≤ 100 then
              let places : Int := fraction.length - e
              let units := signed * Nat.pow 10 (-places).toNat
              some ⟨units, places.toNat, (Octets.ofInt (units / Nat.pow 10 places.toNat)).length⟩
            else none
        else none

def endless : List Octets :=
  ["inf", "INF", "Inf", "infinity", "+inf"].map String.toList

def Step.at (s : Step) (places : Nat) : Int :=
  s.units * Nat.pow 10 (places - s.places)

/-- So many units of `10 ^ -places` in decimal, with zeros before them up to the given width. -/
def number (places width : Nat) (units : Int) : Octets :=
  let ds := Floating.pointed places false units.natAbs
  let sign := if units < 0 then ['-'] else []
  sign ++ List.replicate (width - sign.length - ds.length) '0' ++ ds

/-- The numbers from `first` on, each greater than the one before by `step`, so many of them. -/
def numbers (first step : Int) (count : Nat) : List Int :=
  (List.range count).map fun n : Nat => first + step * n

/-- The text before a directive for a number, the directive, and the text after it. -/
def format? (cs : Octets) : Option (Octets × (Directive × Char) × Octets) :=
  let before := cs.takeWhile (· != '%')
  match cs.drop before.length with
  | '%' :: rest =>
    let marks := rest.takeWhile Directive.isMark
    let (width, rest) := Text.Radix.split 10 (rest.drop marks.length)
    let (precision, rest) := match rest with
      | '.' :: rest =>
        let (ds, rest) := Text.Radix.split 10 rest
        (some (Text.Radix.value 10 ds), rest)
      | _ => (none, rest)
    match rest with
    | kind :: after =>
      if kind ∈ ['e', 'f', 'g', 'E', 'F', 'G'] then
        let d := marks.foldl Directive.mark {}
        some (before, ({ d with width := Text.Radix.value 10 width, precision }, kind), after)
      else none
    | [] => none
  | _ => none

def tool : Tool := fun s => Attempt.settle do
  let o ← s.options
    { flags := "w", valued := "sf", anywhere := false, numbers := true
      words := [("equal-width", 'w'), ("separator", 's'), ("format", 'f')] }
  let isEndless := o.operands.getLast?.any fun a => a ∈ endless
  let operands := if isEndless then o.operands.dropLast ++ ["1e9".toList] else o.operands
  let steps ← operands.mapM fun a =>
    match step? a with
    | some n => .ok n
    | none => .error (s.misused 1 ("invalid floating point argument: ".toList ++ quoted a))
  let one : Step := ⟨1, 0, 1⟩
  let (first, step, last) ← match steps with
    | [] => .error (s.misused 1 "missing operand".toList)
    | [last] => .ok (one, one, last)
    | [first, last] => .ok (first, one, last)
    | [first, step, last] => .ok (first, step, last)
    | _ => .error (s.misused 1 ("extra operand ".toList ++ quoted (o.operands.getD 3 [])))
  if step.units = 0 then
    throw (s.misused 1 ("invalid Zero increment value: ".toList ++ quoted (o.operands.getD 1 [])))
  let shownPlaces := max first.places step.places
  let places := max shownPlaces last.places
  let a := first.at places
  let b := last.at places
  let d := step.at places
  let count := if 0 < d then (if a ≤ b then (b - a) / d + 1 else 0)
    else (if b ≤ a then (a - b) / (-d) + 1 else 0)
  let count := if isEndless then min count 100000 else count
  let ns := numbers (first.at shownPlaces) (step.at shownPlaces) count.toNat
  let width := if o.has 'w' then
      max first.before last.before + (if shownPlaces = 0 then 0 else shownPlaces + 1)
    else 0
  let write ← match o.value? 'f' with
    | none => pure (number shownPlaces width)
    | some f =>
      match format? f with
      | some (before, (directive, kind), after) =>
        pure fun n => before ++ directive.floating kind
          (.finite (n < 0) n.natAbs (Nat.pow 10 shownPlaces)) ++ after
      | none => throw (failed 1 "format has no % directive")
  let separator := (o.value? 's').getD ['\n']
  let items := ns.map write
  return {
    output := if items.isEmpty then [] else separator.intercalate items ++ ['\n']
    endless := isEndless && !items.isEmpty }

end Sequence

namespace Factor

/-- The prime factors of a number from `d` on, the least one first. -/
def factors : (fuel : Nat) → (d n : Nat) → List Nat
  | 0, _, n => if 1 < n then [n] else []
  | fuel + 1, d, n =>
    if n < d * d then (if 1 < n then [n] else [])
    else if n % d = 0 then d :: factors fuel d (n / d)
    else factors fuel (d + 1) n

def tool : Tool := fun s => Attempt.settle do
  let o ← s.options { flags := "h" }
  let numerals := if o.operands.isEmpty
    then (Octets.splitOn ' ' (s.input.map fun c => if Octets.isSpace c then ' ' else c)).filter
      fun w => !w.isEmpty
    else o.operands
  let rows := numerals.map fun w =>
    (w, (natural? (if w.head? = some '+' then w.tail else w)))
  let bad := rows.filter (·.2.isNone)
  return {
    output := rows.flatMap fun (_, n?) =>
      match n? with
      | some n =>
        Octets.ofNat n ++ ':' :: ((factors 1000000 2 n).flatMap fun f => ' ' :: Octets.ofNat f) ++
          ['\n']
      | none => []
    messages := bad.map fun (w, _) => quoted w ++ " is not a valid positive integer".toList
    status := if bad.isEmpty then 0 else 1
    waits := if o.operands.isEmpty then .all else .nothing }

end Factor

/-- Prints a line of its arguments again and again. The output is cut where it is long enough for
whoever reads it. -/
def yes : Tool := fun s =>
  let args := if s.args.head? = some ['-', '-'] then s.args.tail else s.args
  let line := (if args.isEmpty then ['y'] else [' '].intercalate args) ++ ['\n']
  { output := (List.replicate (Disk.greatestRead / line.length + 1) line).flatten, endless := true }

end Allotment.Tool
