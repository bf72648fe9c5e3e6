import Allotment.Shell.Builtin.Basic

/-!
# Variables and options

Commands of the shell that change variables, parameters and options.
-/

namespace Allotment.Shell

open Text (Octets)

namespace Builtin

def inQuotes (cs : Octets) : Octets :=
  '\'' :: cs.flatMap (fun c => if c = '\'' then "'\"'\"'".toList else [c]) ++ ['\'']

def mark (name : String) (changed : Slot → Slot) (isMarked : Slot → Bool) : Builtin :=
    fun args => do
  let args := if args.head? = some ['-', '-'] then args.tail else args
  if args.isEmpty ∨ args = [['-', 'p']] then
    let e ← Exec.env
    let shown := (e.bindings.filter fun (_, slot) => isMarked slot).flatMap fun (v, slot) =>
      name.toList ++ ' ' :: v ++ slot.value.elim [] (fun cs => '=' :: inQuotes cs) ++ ['\n']
    let _ ← Exec.write 1 shown
    return 0
  args.forM fun a => do
    let v := a.takeWhile (· != '=')
    unless Octets.isName v do fail name (v ++ ": bad variable name".toList)
    if v.length < a.length then Exec.assign v (a.drop (v.length + 1))
    Exec.change fun e =>
      e.setSlot v (some (changed ((e.bindings.lookup v).getD ⟨none, false, false⟩)))
  return 0

def exported : Builtin :=
  mark "export" (fun s => { s with isExported := true }) (·.isExported)

def readonly : Builtin :=
  mark "readonly" (fun s => { s with isReadonly := true }) (·.isReadonly)

def unset : Builtin := fun args => do
  let ofFunctions := args.head? == some ['-', 'f']
  let names := if args.head? ∈ [some ['-', 'f'], some ['-', 'v'], some ['-', '-']] then args.tail
    else args
  names.forM fun v => do
    if ofFunctions then
      Exec.change fun e => { e with functions := e.functions.filter (·.1 != v) }
    else
      unless Octets.isName v do fail "unset" (v ++ ": bad variable name".toList)
      if ((← Exec.env).bindings.lookup v).any (·.isReadonly) then
        fail "unset" (v ++ ": is read only".toList)
      Exec.change (·.setSlot v none)
  return 0

def localVariables : Builtin := fun args => do
  match (← Exec.env).locals with
  | [] => fail "local" "not in a function".toList
  | _ =>
    args.forM fun a => do
      let v := a.takeWhile (· != '=')
      unless Octets.isName v do fail "local" (v ++ ": bad variable name".toList)
      Exec.change fun e =>
        match e.locals with
        | frame :: frames =>
          if frame.any (·.1 == v) then e
          else { e with locals := ((v, e.bindings.lookup v) :: frame) :: frames }
        | [] => e
      if v.length < a.length then Exec.assign v (a.drop (v.length + 1))
    return 0

def shift : Builtin := fun args => do
  let n ← match args with
    | [] => pure 1
    | a :: _ => number "shift" a
  if (← Exec.env).parameters.length < n then fail "shift" "can't shift that many".toList
  Exec.change fun e => { e with parameters := e.parameters.drop n }
  return 0

def optionNames : List (String × Char) :=
  [("errexit", 'e'), ("noglob", 'f'), ("ignoreeof", 'I'), ("interactive", 'i'), ("monitor", 'm'),
    ("noexec", 'n'), ("stdin", 's'), ("xtrace", 'x'), ("verbose", 'v'), ("vi", 'V'),
    ("emacs", 'E'), ("noclobber", 'C'), ("allexport", 'a'), ("notify", 'b'), ("nounset", 'u')]

def idleOptionNames : List String :=
  ["privileged", "nolog", "debug"]

/-- Shows which options are set, in words or as commands that set them. -/
def showOptions (inWords : Bool) : Exec Unit := do
  let e ← Exec.env
  let all := (optionNames.map fun (name, c) => (name, e.options.contains c)) ++
    idleOptionNames.map fun name => (name, false)
  let shown := all.flatMap fun (name, isOn) =>
    if inWords then Tool.padRight 16 name.toList ++ (if isOn then "on\n" else "off\n").toList
    else (if isOn then "set -o " else "set +o ").toList ++ name.toList ++ ['\n']
  let title := if inWords then "Current option settings\n".toList else []
  let _ ← Exec.write 1 (title ++ shown)

def setOption (isOn : Bool) (c : Char) : Exec Unit := do
  unless c ∈ Environment.optionLetters do
    fail "set" ("Illegal option ".toList ++ [if isOn then '-' else '+', c])
  if c = 'm' ∧ isOn then
    return ← Exec.complain "set: can't access tty; job control turned off".toList
  Exec.change fun e =>
    { e with options := if isOn then c :: e.options.filter (· != c)
                        else e.options.filter (· != c) }

def setWith : (n : Nat) → List Octets → Exec Unit
  | 0, _ => return ()
  | n + 1, args =>
    match args with
    | [] => return ()
    | ['-', '-'] :: ps => Exec.change fun e => { e with parameters := ps }
    | (sign :: c :: cs) :: more =>
      if sign = '-' ∨ sign = '+' then do
        if c = 'o' then
          match more with
          | [] => showOptions (sign == '-')
          | name :: more =>
            match optionNames.lookup (String.ofList name) with
            | some letter => setOption (sign == '-') letter
            | none => fail "set" ("Illegal option ".toList ++ [sign, 'o', ' '] ++ name)
            setWith n more
        else
          (c :: cs).forM (setOption (sign == '-'))
          setWith n more
      else Exec.change fun e => { e with parameters := args }
    | ['-'] :: ps =>
      Exec.change fun e =>
        { e with options := e.options.filter fun c => c != 'x' && c != 'v'
                 parameters := if ps.isEmpty then e.parameters else ps }
    | _ => Exec.change fun e => { e with parameters := args }

def options : Builtin := fun args => do
  if args.isEmpty then
    let e ← Exec.env
    let shown := e.bindings.flatMap fun (v, slot) =>
      slot.value.elim [] fun cs => v ++ '=' :: inQuotes cs ++ ['\n']
    let _ ← Exec.write 1 shown
  else setWith (args.length + 1) args
  return 0

end Builtin

end Allotment.Shell
