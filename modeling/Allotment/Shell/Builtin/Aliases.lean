import Allotment.Shell.Builtin.Names
import Allotment.Shell.Builtin.Variables

/-!
# Aliases

An alias is a text that stands in the place of a word where a command begins.
-/

namespace Allotment.Shell

open Text (Octets)

namespace Builtin

def aliasText (name value : Octets) : Octets :=
  name ++ '=' :: inQuotes value ++ ['\n']

def setAliases : Builtin := fun args => do
  if args.isEmpty then
    let all := (← Exec.env).aliases.mergeSort fun a b =>
      Tool.compareOctets a.1 b.1 != .gt
    let _ ← Exec.write 1 (all.flatMap fun (name, value) => aliasText name value)
    return 0
  let mut status := 0
  for a in args do
    let name := a.takeWhile (· != '=')
    if name.length < a.length ∧ ¬name.isEmpty then
      Exec.change fun e => { e with aliases := update name (a.drop (name.length + 1)) e.aliases }
    else
      match (← Exec.env).aliases.lookup a with
      | some value =>
        let _ ← Exec.write 1 (aliasText a value)
      | none =>
        let _ ← Exec.write 2 ("alias: ".toList ++ a ++ " not found\n".toList)
        status := 1
  return status

def dropAliases : Builtin := fun args => do
  if args.head? = some ['-', 'a'] then
    Exec.change fun e => { e with aliases := [] }
    return 0
  let mut status := 0
  for a in args do
    if (← Exec.env).aliases.any (·.1 == a) then
      Exec.change fun e => { e with aliases := e.aliases.filter (·.1 != a) }
    else
      let _ ← Exec.write 2 ("unalias: ".toList ++ a ++ " not found\n".toList)
      status := 1
  return status

def hash : Builtin := fun args => do
  let mut status := 0
  for a in args.filter fun a => a.head? != some '-' do
    match meaning (← Exec.env) a with
    | .nothing =>
      let _ ← complain "hash" (a ++ ": not found".toList)
      status := 1
    | _ => pure ()
  return status

end Builtin

end Allotment.Shell
