import Allotment.Tool.Excerpt

/-!
# Blocks

`dd` copies blocks of a file or of its input, as many as its operands say.
-/

namespace Allotment.Tool

open Text (Octets)

namespace Blocks

def value? (args : List Octets) (name : String) : Option Octets :=
  (args.reverse.find? fun a => (name ++ "=").toList.isPrefixOf a).map (·.drop (name.length + 1))

def size? (cs : Octets) : Option Nat :=
  (Octets.splitOn 'x' cs).foldlM (fun n part => (Excerpt.scaled? part).map (n * ·)) 1

def names : List String :=
  ["if", "of", "bs", "ibs", "obs", "cbs", "count", "skip", "seek", "conv", "status", "iflag",
    "oflag"]

def tool : Tool := fun s => Attempt.settle do
  for a in s.args do
    unless names.any fun n => (n ++ "=").toList.isPrefixOf a do
      throw (s.misused 1 ("unrecognized operand ".toList ++ quoted a))
  let number (name : String) (usual : Option Nat) : Except Outcome (Option Nat) :=
    match value? s.args name with
    | none => .ok usual
    | some cs =>
      match size? cs with
      | some n => .ok (some n)
      | none => .error { messages := ["invalid number: ".toList ++ quoted cs], status := 1 }
  let whole ← number "bs" none
  let size := (whole.or (← number "ibs" none)).getD 512
  if size = 0 then throw { messages := ["invalid number: ".toList ++ quoted ['0']], status := 1 }
  let skip := (← number "skip" none).getD 0
  let count ← number "count" none
  let source := value? s.args "if"
  let text ← match source with
    | none => pure s.input
    | some path =>
      match s.disk.read path with
      | .ok text => pure text
      | .error e =>
        throw { messages := ["failed to open ".toList ++ quoted path ++ (": " ++ e.text).toList]
                status := 1 }
  let rest := text.drop (skip * size)
  let copied := count.elim rest fun n => rest.take (n * size)
  let records := Octets.ofNat (copied.length / size) ++ '+' ::
    Octets.ofNat (if copied.length % size = 0 then 0 else 1)
  let told := if value? s.args "status" = some "none".toList then []
    else [records ++ " records in".toList, records ++ " records out".toList]
  let waits := match source, count with
    | none, some n => .octets ((skip + n) * size)
    | none, none => .all
    | some _, _ => .nothing
  let isEndless := count.isNone && source.any s.disk.isEndless
  match value? s.args "of" with
  | some path =>
    return { messages := told, waits, endless := isEndless
             written := some (s.disk.write path copied) }
  | none => return { output := copied, messages := told, waits, endless := isEndless }

end Blocks

end Allotment.Tool
