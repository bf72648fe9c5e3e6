import Allotment.Shell.Program.Basic

/-!
# Shells as programs

A shell gets a script as an argument, by its path or from its input, and goes on with an
environment of its own.
-/

namespace Allotment.Shell

open Text (Octets)

namespace Program

/-- The arguments of a shell. -/
structure Call where
  options : List Char := []
  /-- The first operand is a script and not the name of one. -/
  isText : Bool := false
  readsInput : Bool := false
  operands : List Octets := []
  fault : Option Octets := none

def Call.ofArguments : List Octets → Call
  | [] => {}
  | a :: args =>
    match a with
    | ['-', '-'] => { operands := args }
    | ['-'] => { operands := args }
    | '-' :: 'o' :: [] =>
      match args with
      | name :: more =>
        let c := ofArguments more
        match Builtin.optionNames.lookup (String.ofList name) with
        | some letter => { c with options := letter :: c.options }
        | none => { c with fault := some ("Illegal option -o ".toList ++ name) }
      | [] => {}
    | '+' :: _ :: _ => ofArguments args
    | '-' :: letters =>
      let c := ofArguments args
      let unknown := letters.find? fun l => l ∉ Environment.optionLetters && l != 'c' && l != 'l'
      { c with
        options := letters.filter (fun l => l ∈ Environment.optionLetters && l != 'm') ++ c.options
        isText := c.isText || letters.contains 'c'
        readsInput := c.readsInput || letters.contains 's'
        fault := (unknown.map fun l => "Illegal option -".toList ++ [l]).or c.fault }
    | _ => { operands := a :: args }

def ownVariables : List (String × String) :=
  [("IFS", " \t\n"), ("OPTIND", "1"), ("PS1", "# "), ("PS2", "> "), ("PS4", "+ "),
    ("PATH", "/usr/local/sbin:/usr/local/bin:/usr/sbin:/usr/bin:/sbin:/bin")]

def become (text : RunText) (tools : List (String × Tool)) (name : Octets)
    (options : List Char) (parameters : List Octets)
    (script : Exec Octets) : Exec Unit := do
  Exec.change fun e =>
    { e with
      shell := e.process, tools, name, options, parameters, line := 1
      bindings :=
        (ownVariables.filter fun (v, _) => v.toList ∉ e.exported.map (·.1) ∨ v = "IFS").foldl
          (fun vs (v, cs) => update v.toList (Slot.mk (some cs.toList) false false) vs)
          (update "PPID".toList ⟨some (Octets.ofNat (e.ancestors.headD 0)), false, false⟩
            (e.exported.map fun (v, cs) => (v, ⟨some cs, true, false⟩)))
      functions := [], jobs := [], lastJob := none, loops := 0, isTested := false, locals := []
      status := 0 }
  Exec.withTrap text do text (← script)

def shell (text : RunText) (tools : List (String × Tool)) (name : Octets) (args : List Octets) :
    Exec Unit := do
  let become := become text tools
  let c := Call.ofArguments args
  let refuse (message : Octets) : Exec Unit := do
    tell (name ++ ": 0".toList) message
    throw (.exited 2)
  if let some message := c.fault then refuse message
  else if c.isText then
    match c.operands with
    | [] => refuse "-c requires an argument".toList
    | [script] => become name c.options [] (return script)
    | script :: zero :: ps => become zero c.options ps (return script)
  else
    match c.operands with
    | [] => become name c.options [] readAll
    | path :: ps =>
      if c.readsInput then become name c.options c.operands readAll
      else
        match (← Exec.disk).read path with
        | .ok script => become path c.options ps (return script)
        | .error .directory => become path c.options ps (return [])
        | .error .missing => refuse ("cannot open ".toList ++ path ++ ": No such file".toList)

end Program

end Allotment.Shell
