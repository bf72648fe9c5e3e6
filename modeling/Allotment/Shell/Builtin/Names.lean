import Allotment.Shell.Builtin.Basic
import Allotment.Tool.Table

/-!
# What names mean

A name of a command can mean a word of the shell, a function, a command of the shell or a program.
-/

namespace Allotment.Shell

open Text (Octets)

namespace Builtin

/-- The commands that end the shell if they go wrong, and whose assignments last. -/
def special : List String :=
  [".", ":", "break", "continue", "eval", "exec", "exit", "export", "readonly", "return", "set",
    "shift", "times", "trap", "unset"]

def names : List String :=
  special ++ ["alias", "bg", "cd", "chdir", "command", "fg", "getopts", "hash", "jobs", "kill",
    "local", "pwd", "read", "type", "ulimit", "umask", "unalias", "wait"]

def runners : List String :=
  ["bash", "dash", "env", "nice", "nohup", "setsid", "sh", "stdbuf", "timeout", "xargs"]

def usualPlaces : Octets :=
  "/bin:/usr/bin".toList

def path? (e : Environment) (name : Octets) : Option Octets :=
  let isKnown (n : Octets) : Bool :=
    (Tool.named? n).isSome || runners.any (·.toList = n)
  let places := ["/bin".toList, "/usr/bin".toList]
  if '/' ∈ name then
    let path := Tool.Path.absolute ((e.value? "PWD".toList).getD ['/']) name
    if Tool.Path.directory path ∈ places ∧ isKnown (Tool.Path.last path) ∧
        name.getLast? ≠ some '/' then some name
    else none
  else
    let searched := Octets.splitOn ':' ((e.value? "PATH".toList).getD usualPlaces)
    if isKnown name then
      (["/usr/bin".toList, "/bin".toList].find? (· ∈ searched)).map fun d => d ++ '/' :: name
    else none

/-- What a name means as a command. -/
inductive Meaning where
  | reserved
  | function (body : Command)
  | special
  | builtin
  | tool (t : Tool)
  | program (path : Octets)
  | nothing

def meaning (e : Environment) (name : Octets) : Meaning :=
  if name ∈ special.map String.toList then .special
  else
    match e.functions.lookup name with
    | some body => .function body
    | none =>
      match e.tool? name with
      | some t => .tool t
      | none =>
        if name ∈ names.map String.toList then .builtin
        else
          match path? e name with
          | some path => .program path
          | none => .nothing

def type (inWords : Bool) : Builtin := fun args => do
  let mut status := 0
  for a in args do
    let e ← Exec.env
    let isReserved := a ∈ Parse.reserved.map String.toList
    let tell (words : String) : Exec Nat := do
      let _ ← Exec.write 1 ((if inWords then a ++ ' ' :: words.toList else a) ++ ['\n'])
      return 0
    let one ← if isReserved then tell "is a shell keyword"
      else match meaning e a with
        | .special => tell "is a special shell builtin"
        | .function _ => tell "is a shell function"
        | .tool _ | .builtin => tell "is a shell builtin"
        | .program path => do
          let _ ← Exec.write 1 ((if inWords then a ++ " is ".toList ++ path else path) ++ ['\n'])
          pure 0
        | _ => do
          if inWords then
            let _ ← Exec.write 1 (a ++ ": not found\n".toList)
          pure 127
    if one ≠ 0 then status := one
  return status

end Builtin

end Allotment.Shell
