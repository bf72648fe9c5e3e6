import Allotment.Shell.Arithmetic
import Allotment.Shell.Glob.Paths
import Allotment.Shell.State

/-!
# Expansion of words

A word is expanded into pieces, and these into fields: what is not quoted and comes from a parameter
or a command is cut at separators. Where only one text is wanted, the pieces are put together
uncut.
-/

namespace Allotment.Shell

open Text (Octets)

/-- A piece of an expanded word. -/
inductive Piece where
  | text (cs : Octets) (quoted : Bool)
  /-- Text that is cut at separators. -/
  | value (cs : Octets)
  /-- One field ends here and another one begins; in a text that stays whole, this stands between
  them. -/
  | parting (between : Octets)
  /-- A field in which nothing else stands is left out. -/
  | vanished

namespace Expansion

/-! ### Fields -/

/-- Fields that are being put together. -/
structure Fields where
  /-- The finished ones, the last one first. -/
  done : List (List Glob.Symbol) := []
  /-- The field that has begun, the last character first. -/
  current : Option (List Glob.Symbol) := none
  /-- The current field is left out if it stays empty. -/
  mayVanish : Bool := false
  /-- The last field was ended by space. -/
  afterSpace : Bool := false

def Fields.finish (f : Fields) : Fields :=
  match f.current with
  | none => { f with mayVanish := false }
  | some cs =>
    { f with
      done := if cs.isEmpty && f.mayVanish then f.done else cs.reverse :: f.done
      current := none, mayVanish := false }

def Fields.add (f : Fields) (cs : Octets) (quoted : Bool) : Fields :=
  { f with current := some ((cs.map fun c => (c, quoted)).reverse ++ f.current.getD []) }

def Fields.addCut (separators : Octets) (f : Fields) (c : Char) : Fields :=
  if c ∉ separators then { f.add [c] false with afterSpace := false }
  else if c = ' ' ∨ c = '\t' ∨ c = '\n' then
    if f.current.isSome then { f.finish with afterSpace := true } else f
  else
    match f.current with
    | some _ => { f.finish with afterSpace := false }
    | none =>
      if f.afterSpace then { f with afterSpace := false }
      else { f with done := [] :: f.done }

def Fields.addPiece (separators : Octets) (f : Fields) : Piece → Fields
  | .text cs quoted =>
    if cs.isEmpty ∧ ¬quoted then f else { f.add cs quoted with afterSpace := false }
  | .value cs => cs.foldl (Fields.addCut separators) f
  | .parting _ => f.finish
  | .vanished => { f with mayVanish := true }

def fields (separators : Octets) (ps : List Piece) : List (List Glob.Symbol) :=
  (ps.foldl (Fields.addPiece separators) {}).finish.done.reverse

def symbols (ps : List Piece) : List Glob.Symbol :=
  ps.flatMap fun
    | .text cs quoted => cs.map fun c => (c, quoted)
    | .value cs => cs.map fun c => (c, false)
    | .parting cs => cs.map fun c => (c, false)
    | .vanished => []

def separators (e : Environment) : Octets :=
  (e.value? "IFS".toList).getD [' ', '\t', '\n']

/-! ### Parameters -/

def valueOf (e : Environment) (name : Octets) : Option Octets :=
  match name with
  | ['?'] => some (Octets.ofNat e.status)
  | ['#'] => some (Octets.ofNat e.parameters.length)
  | ['$'] => some (Octets.ofNat e.shell)
  | ['!'] => e.lastJob.map Octets.ofNat
  | ['-'] => some (Environment.optionLetters.filter (· ∈ e.options))
  | ['0'] => some e.name
  | _ =>
    match Tool.natural? name with
    | some n => e.parameters[n - 1]?
    | none => e.value? name

def parametersOf (e : Environment) (isStar quoted : Bool) : List Piece :=
  let between := match e.value? "IFS".toList with
    | some (c :: _) => [c]
    | some [] => []
    | none => [' ']
  if quoted ∧ isStar then
    [.text (between.intercalate e.parameters) true]
  else if e.parameters.isEmpty then (if quoted then [.vanished] else [])
  else
    let one (cs : Octets) : Piece := if quoted then .text cs true else .value cs
    (e.parameters.map one).intersperse (.parting between)

def parameter (name : Octets) (quoted : Bool) : Exec (List Piece) := do
  let e ← Exec.env
  if name = ['@'] ∨ name = ['*'] then return parametersOf e (name == ['*']) quoted
  match valueOf e name with
  | some cs => return [if quoted then .text cs true else .value cs]
  | none =>
    if e.options.contains 'u' ∧ name ≠ ['!'] then Exec.fail (name ++ ": parameter not set".toList)
    return []

def cut : Piece → Piece
  | .text cs false => .value cs
  | p => p

/-! ### Words -/

def arithmetic (cs : Octets) : Exec Octets := do
  let fault (what : String) : Exec Octets :=
    Exec.fail ("arithmetic expression: ".toList ++ what.toList ++ ": \"".toList ++ cs ++ ['"'])
  match Arithmetic.read? cs with
  | none => fault "expecting primary"
  | some t =>
    let look (e : Environment) (name : Octets) : Option Int :=
      match e.value? name with
      | none => some 0
      | some v => if v.isEmpty then some 0 else Arithmetic.integer? v
    let put (e : Environment) (name : Octets) (n : Int) : Environment :=
      e.assign name (Octets.ofInt n)
    match (t.eval look put).run (← Exec.env) with
    | some (n, e) =>
      Exec.change fun _ => e
      return Octets.ofInt n
    | none => fault "division by zero"

def plain (ss : List Glob.Symbol) : Octets :=
  ss.map (·.1)

/-- The pieces of the parts of a word, nested at most so deep; `outputOf` runs commands and gives
what they write. -/
def pieces (outputOf : List Command → Exec Octets) : (depth : Nat) → Word → Exec (List Piece)
  | 0, _ => throw .endless
  | n + 1, word => do
    let ps ← word.mapM fun part => do
      match part with
      | .text cs quoted => return [Piece.text cs quoted]
      | .parameter name quoted => parameter name quoted
      | .length name quoted =>
        let e ← Exec.env
        let count := if name = ['@'] ∨ name = ['*'] then e.parameters.length
          else ((valueOf e name).getD []).length
        let cs := Octets.ofNat count
        return [if quoted then .text cs true else .value cs]
      | .output body quoted =>
        let cs ← outputOf body
        return [if quoted then .text cs true else .value cs]
      | .arithmetic expression quoted =>
        let cs ← arithmetic (plain (symbols (← pieces outputOf n expression)))
        return [if quoted then .text cs true else .value cs]
      | .modified name m emptyToo inner quoted =>
        let e ← Exec.env
        let isAll := name == ['@'] || name == ['*']
        let value := if isAll then
            (if e.parameters.isEmpty then none else some ([' '].intercalate e.parameters))
          else valueOf e name
        let isSet := value.any fun v => !(emptyToo && v.isEmpty)
        let other : Exec (List Piece) := do
          let ps ← pieces outputOf n inner
          return if quoted then ps else ps.map cut
        match m with
        | .orElse => if isSet then parameter name quoted else other
        | .andThen => if isSet then other else return if quoted ∧ isAll then [.vanished] else []
        | .assign =>
          if isSet then parameter name quoted
          else
            let cs := plain (symbols (← other))
            Exec.assign name cs
            return [if quoted then .text cs true else .value cs]
        | .require =>
          if isSet then parameter name quoted
          else
            let cs := plain (symbols (← other))
            let what := if ¬cs.isEmpty then cs
              else if emptyToo then "parameter not set or null".toList
              else "parameter not set".toList
            Exec.fail (name ++ ": ".toList ++ what)
        | .trim atEnd longest =>
          let g := Glob.ofPattern (symbols (← pieces outputOf n inner))
          let trimmed (cs : Octets) : Octets := Glob.trim atEnd longest g cs
          let ps ← parameter name quoted
          return ps.map fun
            | .text cs q => .text (trimmed cs) q
            | .value cs => .value (trimmed cs)
            | p => p
    return ps.flatten

/-- A word in which a tilde at the beginning stands for the home directory. -/
def withHome (e : Environment) : Word → Word
  | .text ('~' :: cs) false :: more =>
    let user := cs.takeWhile (· != '/')
    let home? := if user.isEmpty then e.value? "HOME".toList
      else if user = "root".toList then some "/root".toList
      else none
    match home? with
    | some home => .text home true :: .text (cs.drop user.length) false :: more
    | none => .text ('~' :: cs) false :: more
  | w => w

def fieldsOf (outputOf : List Command → Exec Octets) (depth : Nat) (w : Word) :
    Exec (List Octets) := do
  let ps ← pieces outputOf depth (withHome (← Exec.env) w)
  let e ← Exec.env
  let fs := fields (separators e) ps
  if e.options.contains 'f' then return fs.map plain
  let d ← Exec.disk
  return fs.flatMap fun f => Glob.paths d f

def symbolsOf (outputOf : List Command → Exec Octets) (depth : Nat) (w : Word) :
    Exec (List Glob.Symbol) := do
  return symbols (← pieces outputOf depth (withHome (← Exec.env) w))

def textOf (outputOf : List Command → Exec Octets) (depth : Nat) (w : Word) : Exec Octets := do
  return plain (← symbolsOf outputOf depth w)

end Expansion

end Allotment.Shell
