import Allotment.Command.Run
import Allotment.Shell.Run

/-!
# A host with a shell

One of the hosts that a command source may find: a small computer with a POSIX shell and the usual
tools. What a program would do there is told without starting it: programs are known by their names,
and the shell runs its script on a clock of its own. A program reads nothing, and its messages are
not kept.
-/

namespace Allotment.Shell.Host

open Allotment.Command (Ending Run)
open Text (Octets)

def bindings : List (String × String) :=
  [("HOME", "/root"), ("PATH", "/usr/local/sbin:/usr/local/bin:/usr/sbin:/usr/bin:/sbin:/bin"),
    ("PWD", "/")]

/-- The process of a command at its start. The output is channel zero. -/
def initial (name : Octets) : Environment where
  name := name
  descriptors := [(0, .nowhere), (1, .channel 0), (2, .nowhere)]
  bindings := bindings.map fun (v, cs) => (v.toList, ⟨some cs.toList, true, false⟩)

/-- How a process ended, given how its commands were interrupted. -/
def endingOf (status : Nat) : Except Interruption Unit → Ending
  | .error (.exited n) => .exited n
  | .error (.killed n) => .killed n
  | _ => .exited status

/-- Becomes a program and tells what came of it, or which signal should have been foreseen. -/
def observed (name : Octets) (args : List Octets) : Exec (Except Message Run) := do
  let result ← Exec.observe (Program.run Shell.Run.text Shell.Run.wordDepth id name args)
  if let .error (.tooLate m) := result then return .error m
  let e ← Exec.env
  let ends := if result matches .error .endless then none else some e.now
  let (writings, closes) ← Exec.drain 0 ends
  return .ok {
    output := writings.flatMap fun w => w.octets.bytes.map fun b => (b, w.time)
    closes, ends
    ending := endingOf e.status result }

/-- How often a program is run again because a signal had not been foreseen. -/
def greatestCount : Nat := 20

/-- The run of a program, where the given signals are foreseen and perhaps others that turn up. -/
def runWith (name : Octets) (args : List Octets) : (count : Nat) → List Message → Run
  | 0, _ => ⟨[], none, .exited 0, none⟩
  | n + 1, foreseen =>
    let world : World := { messages := foreseen, foreseen }
    match ((observed name args).run.run { env := initial name, world }).1 with
    | .ok (.ok run) => run
    | .ok (.error m) => runWith name args n (foreseen.filter (·.time ≤ m.time) ++ [m])
    | .error _ => ⟨[], none, .exited 0, none⟩

def runOf (name : Octets) (args : List Octets) : Run :=
  runWith name args greatestCount []

/-! ### Programs and what is none -/

/-- The greatest lengths of a part of a path, of a path and of an argument. -/
def greatestPart : Nat := 255

@[inherit_doc greatestPart]
def greatestPath : Nat := 4095

@[inherit_doc greatestPart]
def greatestArgument : Nat := 131071

def isProgram (path : Octets) : Bool :=
  (Builtin.path? (initial path) path).isSome

def isFile (path : Octets) : Bool :=
  isProgram path || Tool.Disk.initial.isFile path

/-- The paths that a path from the root goes through before its end. -/
def waysTo (path : Octets) : List Octets :=
  let parts := (Octets.splitOn '/' path).filter (!·.isEmpty)
  (List.range (parts.length - 1)).map fun n => '/' :: ['/'].intercalate (parts.take (n + 1))

/-- Why a name leads to no program, if it leads to none. A name with a slash in it is a path; of
those that do not begin at the root, none leads to a file. -/
def fault? (name : Octets) : Option SystemFault :=
  let parts := Octets.splitOn '/' name
  if parts.any fun p => greatestPart < p.length then some .nameTooLong
  else if greatestPath < name.length then some .nameTooLong
  else if parts.all fun p => p.isEmpty || p = ['.'] || p = ['.', '.'] then
    some (if name.isEmpty then .notFound else .notPermitted)
  else if name.head? ≠ some '/' then (if '/' ∉ name ∧ isProgram name then none else some .notFound)
  else if (waysTo name).any isFile then some .notDirectory
  else
    let path := Tool.Path.normalized name
    if isFile path then
      if name.getLast? = some '/' then some .notDirectory
      else if isProgram path then none
      else some .notPermitted
    else if Tool.Disk.initial.isDirectory path then some .notPermitted
    else some .notFound

/-- Starts a program. Programs are known by their names, with or without the usual places before
them. -/
def start (program : String) (args : List String) : Except SystemFault Run :=
  let name := Octets.ofString program
  let args' := args.map Octets.ofString
  if (program :: args).any (·.contains '\x00') then .error .zeroByte
  else
    match fault? name with
    | some f => .error f
    | none =>
      if args'.any fun a => greatestArgument < a.length then .error .argumentsTooLong
      else .ok (runOf name args')

end Allotment.Shell.Host
