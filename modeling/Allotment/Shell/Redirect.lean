import Allotment.Shell.Expansion

/-!
# Redirections

A redirection makes a descriptor lead elsewhere. What cannot be opened keeps the command from being
run.
-/

namespace Allotment.Shell

open Text (Octets)

namespace Redirection

def openInput (path : Octets) : Exec (Except Octets Target) := do
  let d ← Exec.disk
  if path = "/dev/stdin".toList then
    return .ok (((← Exec.env).descriptors.lookup 0).getD .nowhere)
  if d.isNull path ∨ d.isDirectory path then return .ok .nowhere
  match d.read path with
  | .ok cs =>
    let closes := if d.isEndless path then none else some 0
    return .ok (.stream (← Exec.newStream { chunks := [(cs, 0)], closes, isFile := true }))
  | .error _ => return .error ("cannot open ".toList ++ path ++ ": No such file".toList)

/-- Opens a file for output: after what it holds already if that is to be kept, and not at all if a
file that is there is to be spared. -/
def openOutput (path : Octets) (keeps spares : Bool) : Exec (Except Octets Target) := do
  let d ← Exec.disk
  let descriptors := (← Exec.env).descriptors
  let refused (why : String) : Exec (Except Octets Target) :=
    return .error ("cannot create ".toList ++ path ++ ": ".toList ++ why.toList)
  if d.isNull path ∨ d.isEndless path then return .ok .nowhere
  if path = "/dev/full".toList then return .ok (.file path)
  if path = "/dev/stdout".toList then return .ok ((descriptors.lookup 1).getD .nowhere)
  if path = "/dev/stderr".toList then return .ok ((descriptors.lookup 2).getD .nowhere)
  if d.isDirectory path then refused "Is a directory"
  else if ¬d.hasPlaceFor path then refused "Directory nonexistent"
  else if spares ∧ d.isFile path then refused "File exists"
  else
    let before := if keeps then (d.content? path).getD [] else []
    Exec.changeWorld fun w => { w with disk := d.write path before }
    return .ok (.file (d.resolve path))

def setDescriptor (number : Nat) (descriptor : Option Target) : Exec Unit :=
  Exec.change fun e =>
    { e with descriptors := (descriptor.map fun p => (number, p)).toList ++
        e.descriptors.filter (·.1 != number) }

def apply (outputOf : List Command → Exec Octets) (depth : Nat) :
    Redirection → Exec (Option Octets)
  | .mk number kind target => do
    let text : Exec Octets := Expansion.textOf outputOf depth target
    let settle (r : Except Octets Target) : Exec (Option Octets) :=
      match r with
      | .ok p => do
        setDescriptor number (some p)
        return none
      | .error message => return some message
    let same : Exec (Option Octets) := do
      let cs ← text
      if cs = ['-'] then
        setDescriptor number none
        return none
      match Tool.natural? cs with
      | none => Exec.fail ("Syntax error: Bad fd number".toList)
      | some n =>
        match (← Exec.env).descriptors.lookup n with
        | some p =>
          setDescriptor number (some p)
          return none
        | none => return some (cs ++ ": Bad file descriptor".toList)
    match kind with
    | .input => settle (← openInput (← text))
    | .output =>
      let cs ← text
      settle (← openOutput cs false ((← Exec.env).options.contains 'C'))
    | .overwrite => settle (← openOutput (← text) false false)
    | .append => settle (← openOutput (← text) true false)
    | .both =>
      let path ← text
      match ← openOutput path true false with
      | .error message => return some message
      | .ok p => settle (← if number = 0 then openInput path else pure (.ok p))
    | .sameInput => same
    | .sameOutput => same
    | .document n =>
      let word := ((← Exec.env).documents.lookup n).getD []
      let ps ← Expansion.pieces outputOf depth word
      let cs := Expansion.plain (Expansion.symbols ps)
      settle (.ok (.stream (← Exec.newStream { chunks := [(cs, 0)], closes := some 0 })))

/-- Makes redirections one after another up to the first that goes wrong. -/
def applyAll (outputOf : List Command → Exec Octets) (depth : Nat) :
    List Redirection → Exec (Option Octets)
  | [] => return none
  | r :: rs => do
    match ← apply outputOf depth r with
    | some message => return some message
    | none => applyAll outputOf depth rs

end Redirection

end Allotment.Shell
