import Allotment.Shell.Redirect

/-!
# Commands of the shell itself

Commands that change or tell the state of the shell. Each one gets its arguments and gives its
status. What goes wrong in a special command ends the shell. Here are those that go elsewhere.
-/

namespace Allotment.Shell

open Text (Octets)

abbrev Builtin := List Octets → Exec Nat

namespace Builtin

def complain (name : String) (message : Octets) : Exec Nat := do
  Exec.complain (name.toList ++ ": ".toList ++ message)
  return 2

/-- Tells a message in the name of a special command, and ends the shell. -/
def fail {α : Type} (name : String) (message : Octets) : Exec α :=
  Exec.fail (name.toList ++ ": ".toList ++ message)

/-- The number that an argument writes, with or without a sign and with space around it, if it is
not too great. -/
def number? (a : Octets) : Option Nat := do
  let n ← Tool.integer? ((a.dropWhile Octets.isSpace).reverse.dropWhile Octets.isSpace).reverse
  if 0 ≤ n ∧ n < 0x80000000 then some n.toNat else none

def number (name : String) (a : Octets) : Exec Nat := do
  match number? a with
  | some n => return n
  | none => fail name ("Illegal number: ".toList ++ a)

/-! ### Going elsewhere -/

def exit : Builtin := fun args => do
  let status ← match args with
    | [] => pure (← Exec.env).status
    | a :: _ => number "exit" a
  Exec.setStatus (status % 256)
  throw (.exited (status % 256))

def back : Builtin := fun args => do
  let status ← match args with
    | [] => pure (← Exec.env).status
    | a :: _ => number "return" a
  Exec.setStatus (status % 256)
  throw .returned

def leave (name : String) (isAgain : Bool) : Builtin := fun args => do
  let n ← match args with
    | [] => pure 1
    | a :: _ => number name a
  if n = 0 then fail name "Illegal number: 0".toList
  let loops := (← Exec.env).loops
  if loops = 0 then return 0
  Exec.setStatus 0
  throw (.leave (min n loops) isAgain)

end Builtin

end Allotment.Shell
