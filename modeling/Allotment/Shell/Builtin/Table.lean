import Allotment.Shell.Builtin.Aliases
import Allotment.Shell.Builtin.Mask
import Allotment.Shell.Builtin.Read
import Allotment.Shell.Builtin.Signals

/-!
# The commands of the shell by name

The commands of the shell that do not run others, with those for directories and options of
letters.
-/

namespace Allotment.Shell

open Text (Octets)

namespace Builtin

def cd : Builtin := fun args => do
  let e ← Exec.env
  let here := (e.value? "PWD".toList).getD ['/']
  let args := if args.head? ∈ [some ['-', '-'], some ['-', 'L'], some ['-', 'P']] then args.tail
    else args
  let target := match args with
    | [] => (e.value? "HOME".toList).getD here
    | ['-'] :: _ => (e.value? "OLDPWD".toList).getD here
    | [] :: _ => here
    | path :: _ => path
  let path := Tool.Path.absolute here target
  if (← Exec.disk).isDirectory path then
    Exec.change fun e => (e.assign "OLDPWD".toList here).assign "PWD".toList path
    if args.head? = some ['-'] then
      let _ ← Exec.write 1 (path ++ ['\n'])
    return 0
  else complain "cd" ("can't cd to ".toList ++ args.headD [])

def pwd : Builtin := fun _ => do
  let here := ((← Exec.env).value? "PWD".toList).getD ['/']
  let _ ← Exec.write 1 (here ++ ['\n'])
  return 0

/-! ### Others -/

/-- Reads options of letters out of the parameters, one after another. -/
def getopts : Builtin := fun args => do
  match args with
  | letters :: v :: more =>
    let e ← Exec.env
    let ps := if more.isEmpty then e.parameters else more
    let index := ((e.value? "OPTIND".toList).bind Tool.natural?).getD 1
    let offset := ((e.value? "OPTOFF".toList).bind Tool.natural?).getD 1
    let finish (status : Nat) (value : Octets) (index offset : Nat) (found : Option Octets) :
        Exec Nat := do
      Exec.assign v value
      Exec.assign "OPTIND".toList (Octets.ofNat index)
      Exec.change fun e => (e.assign "OPTOFF".toList (Octets.ofNat offset)).setSlot "OPTARG".toList
        (found.map fun cs => ⟨some cs, false, false⟩)
      return status
    let isSilent := letters.head? == some ':'
    match ps[index - 1]? with
    | none => finish 1 ['?'] index 1 none
    | some a =>
      if a = ['-', '-'] then finish 1 ['?'] (index + 1) 1 none
      else if a.head? ≠ some '-' ∨ a.length < 2 then finish 1 ['?'] index 1 none
      else
        let c := a.getD offset '?'
        let rest := a.drop (offset + 1)
        let next := if rest.isEmpty then (index + 1, 1) else (index, offset + 1)
        if c = ':' ∨ c ∉ letters then
          unless isSilent do
            let _ ← Exec.write 2 ("Illegal option -".toList ++ [c, '\n'])
          finish 0 ['?'] next.1 next.2 (if isSilent then some [c] else none)
        else if (letters.drop ((letters.findIdx (· == c)) + 1)).head? = some ':' then
          if ¬rest.isEmpty then finish 0 [c] (index + 1) 1 (some rest)
          else
            match ps[index]? with
            | some value => finish 0 [c] (index + 2) 1 (some value)
            | none =>
              unless isSilent do
                let _ ← Exec.write 2 ("No arg for -".toList ++ [c, ' ', 'o', 'p', 't', 'i', 'o',
                  'n', '\n'])
              finish 0 [if isSilent then ':' else '?'] (index + 1) 1
                (if isSilent then some [c] else none)
        else finish 0 [c] next.1 next.2 none
  | _ => complain "getopts" "Usage: getopts optstring var [arg...]".toList

def ulimit : Builtin := fun args => do
  match args.filter fun a => a.head? != some '-' with
  | [] =>
    let _ ← Exec.write 1 "unlimited\n".toList
    return 0
  | a :: _ =>
    if (number? a).isSome ∨ a = "unlimited".toList then return 0
    complain "ulimit" "bad number".toList

def table : List (String × Builtin) :=
  [(":", fun _ => return 0), ("alias", setAliases),
    ("bg", fun _ => complain "bg" "No current job".toList),
    ("break", leave "break" false), ("cd", cd), ("chdir", cd),
    ("continue", leave "continue" true), ("exit", exit), ("export", exported),
    ("fg", fun _ => complain "fg" "No current job".toList), ("getopts", getopts),
    ("hash", hash), ("jobs", fun _ => return 0), ("kill", kill), ("local", localVariables),
    ("pwd", pwd), ("read", read), ("readonly", readonly), ("return", back), ("set", options),
    ("shift", shift), ("times", fun _ => do
      let _ ← Exec.write 1 "0m0.000000s 0m0.000000s\n0m0.000000s 0m0.000000s\n".toList
      return 0),
    ("trap", trap), ("type", type true), ("ulimit", ulimit), ("umask", umask),
    ("unalias", dropAliases), ("unset", unset), ("wait", wait)]

end Builtin

end Allotment.Shell
