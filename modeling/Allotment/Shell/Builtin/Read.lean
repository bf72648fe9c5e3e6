import Allotment.Shell.Builtin.Basic
import Allotment.Shell.Message

/-!
# Lines of input

A line of input is cut into fields, which become the values of variables.
-/

namespace Allotment.Shell

open Text (Octets)

namespace Builtin

/-- A line of input up to its end, and what follows: the characters, with those that a backslash
stands before marked, when the line is complete, and whether it has an end. -/
def readLine (isRaw : Bool) : (fuel : Nat) → List (Octets × Nat) → (time : Nat) →
    List Glob.Symbol × Option Nat × List (Octets × Nat)
  | 0, chunks, _ => ([], none, chunks)
  | _, [], _ => ([], none, [])
  | n + 1, ([], _) :: chunks, time => readLine isRaw n chunks time
  | n + 1, (c :: cs, t) :: chunks, time =>
    let time := max time t
    if c = '\n' then ([], some time, (cs, t) :: chunks)
    else if c = '\\' ∧ ¬isRaw then
      match cs with
      | '\n' :: cs => readLine isRaw n ((cs, t) :: chunks) time
      | d :: cs =>
        let (line, ends, rest) := readLine isRaw n ((cs, t) :: chunks) time
        ((d, true) :: line, ends, rest)
      | [] => readLine isRaw n chunks time
    else
      let (line, ends, rest) := readLine isRaw n ((cs, t) :: chunks) time
      ((c, false) :: line, ends, rest)

/-- The first fields of a line, so many of them, and all the rest as the last one. -/
def splitLine (separators : Octets) : (count : Nat) → List Glob.Symbol → List Octets
  | 0, _ => []
  | 1, cs =>
    let isSpace (s : Glob.Symbol) : Bool := !s.2 && s.1 ∈ separators && Octets.isSpace s.1
    let isSeparator (s : Glob.Symbol) : Bool := !s.2 && s.1 ∈ separators
    let body := (cs.dropWhile isSpace).reverse.dropWhile isSpace
    -- a separator after the last field belongs to it only if another field comes before it
    let body := match body with
      | s :: more => if isSeparator s ∧ ¬more.any isSeparator then more.dropWhile isSpace else body
      | [] => []
    [body.reverse.map (·.1)]
  | n + 2, cs =>
    let isSpace (s : Glob.Symbol) : Bool := !s.2 && s.1 ∈ separators && Octets.isSpace s.1
    let isSeparator (s : Glob.Symbol) : Bool := !s.2 && s.1 ∈ separators
    let body := cs.dropWhile isSpace
    let field := body.takeWhile fun s => !isSeparator s
    let rest := (body.drop field.length).dropWhile isSpace
    let rest := match rest with
      | s :: more => if isSeparator s ∧ ¬isSpace s then more else rest
      | [] => []
    field.map (·.1) :: splitLine separators (n + 1) rest

def read : Builtin := fun args => do
  let isRaw := args.any fun a => a.head? == some '-' && a.contains 'r'
  let names := (args.dropWhile fun a => a.head? == some '-' && 1 < a.length && a != ['-', 'p'])
  let names := match names with
    | ['-', 'p'] :: _ :: names => names
    | names => names
  if names.isEmpty then return ← complain "read" "arg count".toList
  for v in names do
    unless Octets.isName v do return ← complain "read" (v ++ ": bad variable name".toList)
  match ← Exec.input? 0 with
  | none => return 1
  | some (stream, number) =>
    let size := (stream.chunks.map fun c => c.1.length + 1).foldl (· + ·) 1
    let (line, ends, rest) := readLine isRaw size stream.chunks 0
    let line := line.filter (·.1 != '\x00')
    Exec.leaveRest number { stream with chunks := rest }
    match ends with
    | some t => Exec.sleepUntil (some t)
    | none => Exec.sleepUntil stream.closes
    let values := splitLine (Expansion.separators (← Exec.env)) names.length line
    (names.zip (values ++ List.replicate names.length [])).forM fun (v, cs) => Exec.assign v cs
    return if ends.isSome then 0 else 1

end Builtin

end Allotment.Shell
