import Allotment.Text.OctetClass
import Allotment.Tool.Basic

/-!
# Counts

`wc` counts the lines, words and octets of its sources; `nl` puts numbers before lines.
-/

namespace Allotment.Tool

open Text (Octets)

namespace Count

def words (inWord : Bool) : Octets → Nat
  | [] => if inWord then 1 else 0
  | c :: cs =>
    if Octets.isSpace c then (if inWord then 1 else 0) + words false cs else words true cs

def characters (cs : Octets) : Nat :=
  cs.countP fun c => c.toNat / 0x40 ≠ 2

/-- How far a line reaches, with tabs up to the next multiple of eight. -/
def reach (l : Octets) : Nat :=
  l.foldl (fun n c =>
    if c = '\t' then n / 8 * 8 + 8 else if c.toNat / 0x40 = 2 ∨ c = '\n' then n else n + 1) 0

/-- The counts that the options ask for, in the order in which they are printed. -/
def counts (o : Options) (text : Octets) : List Nat :=
  let byDefault := o.given.isEmpty
  let asked (c : Char) : Bool := o.has c || byDefault && c ∈ ['l', 'w', 'c']
  (if asked 'l' then [text.count '\n'] else []) ++
    (if asked 'w' then [words false text] else []) ++
    (if asked 'm' then [characters text] else []) ++
    (if asked 'c' then [text.length] else []) ++
    (if asked 'L' then [((text.lines.map reach).foldl max 0)] else [])

def row (width : Nat) (ns : List Nat) (name : Octets) : Octets :=
  [' '].intercalate (ns.map fun n => padLeft width (Octets.ofNat n)) ++
    (if name.isEmpty then [] else ' ' :: name) ++ ['\n']

/-- Prints the counts of each source, and their sums if there are several. -/
def tool : Tool := fun s => Attempt.settle do
  let o ← s.options
    { flags := "lwcmL"
      words := [("lines", 'l'), ("words", 'w'), ("bytes", 'c'), ("chars", 'm'),
        ("max-line-length", 'L')] }
  let sources := s.sources o.operands
  let rows := sources.contents.map fun (name, text) => (name, counts o text)
  let several := 1 < o.operands.length
  let total := rows.foldl (fun sums r => if sums.isEmpty then r.2 else
    (sums.zip r.2).map fun (a, b) => a + b) []
  let size := (sources.contents.map fun (_, text) => text.length).foldl (· + ·) 0
  let isSingle := (counts o []).length = 1 ∧ ¬several
  let width := if isSingle then 1
    else if sources.usesInput ∧ ¬s.inputIsFile ∨
      sources.contents.any (fun c => s.disk.isNull c.1) then 7
    else (Octets.ofNat size).length
  let shown := rows.flatMap fun (name, ns) =>
    row width ns (if o.operands.isEmpty then [] else name)
  return { sources.outcome (shown ++ if several then row width total "total".toList else []) with
    isPrompt := false }

end Count

namespace Number

/-- Lines with numbers before those that are not empty, or before all. -/
def lines (all : Bool) (width step : Nat) (separator : Octets) (format : Octets) :
    (n : Int) → List Octets → Octets
  | _, [] => []
  | n, l :: ls =>
    if all ∨ l ≠ ['\n'] then
      let digits := Octets.ofInt n
      let number := if format = ['l', 'n'] then padRight width digits
        else if format = ['r', 'z'] then List.replicate (width - digits.length) '0' ++ digits
        else padLeft width digits
      number ++ separator ++ l ++ lines all width step separator format (n + step) ls
    else
      List.replicate (width + separator.length) ' ' ++ l ++
        lines all width step separator format n ls

def tool : Tool := fun s => Attempt.settle do
  let o ← s.options { valued := "bwsivnfhd" }
  let sources := s.sources o.operands
  let number (c : Char) (usual : Nat) : Nat := ((o.value? c).bind natural?).getD usual
  let first := ((o.value? 'v').bind integer?).getD 1
  let ls := (Octets.unlines sources.text.lines).rawLines
  return sources.outcome (lines (o.value? 'b' = some ['a']) (number 'w' 6) (number 'i' 1)
    ((o.value? 's').getD ['\t']) ((o.value? 'n').getD ['r', 'n']) first ls)

end Number

end Allotment.Tool
