import Allotment.Shell.Program.Basic

/-!
# Programs that run others

Programs whose arguments name another program, which they become or run in a process of their own
with other variables, within a limit of time or with arguments that they read.
-/

namespace Allotment.Shell

open Text (Octets)

namespace Program

/-- How programs are run by another one. -/
structure Launcher where
  /-- The process goes on as the named program. What is told if there is none begins as given. -/
  run : (lead : Octets → Octets) → (name : Octets) → List Octets → Exec Unit
  /-- Runs the program in a new process within limits. -/
  child : (limits : List (Nat × Nat)) → (lead : Octets → Octets) → List Octets → Exec Ended

/-- What is told about a program that cannot be run, in the words of most. -/
def simpleLead (name program : Octets) : Octets :=
  name ++ ": ".toList ++ Tool.quoted program

def longLead (name program : Octets) : Octets :=
  name ++ ": failed to run command ".toList ++ Tool.quoted program

def misused {α : Type} (status : Nat) (name message : Octets) : Exec α := do
  (Tool.Setting.misused { name, args := [] } status message).messages.forM (tell name)
  finish status

def optionsOf (k : Tool.Known) (name : Octets) (args : List Octets) : Exec Tool.Options := do
  match k.split (args.length + 1) args with
  | .ok o => return o
  | .error message => misused k.misuse name message

namespace Launcher

variable (m : Launcher)

/-- The process goes on as the program that its first argument names. -/
def follow (lead : Octets → Octets) (name : Octets) : List Octets → Exec Unit
  | [] => misused 125 name "missing operand".toList
  | program :: args => m.run lead program args

def plain (valued : String) (lead : Octets → Octets) (name : Octets) (args : List Octets) :
    Exec Unit := do
  let o ← optionsOf { flags := "cfw", valued, anywhere := false, misuse := 125 } name args
  m.follow lead name o.operands

/-- Goes on as another program that gives way to others, or tells how far it does. -/
def withPriority (name : Octets) (args : List Octets) : Exec Unit := do
  let o ← optionsOf
    { flags := "0123456789", valued := "n", words := [("adjustment", 'n')], anywhere := false
      misuse := 125 } name args
  if let some n := o.value? 'n' then
    if (Tool.integer? n).isNone then
      misused 125 name ("invalid adjustment ".toList ++ Tool.quoted n)
  if o.operands.isEmpty then
    unless o.given.isEmpty do
      misused 125 name "a command must be given with an adjustment".toList
    let _ ← Exec.write 1 "0\n".toList
    finish 0
  m.follow (simpleLead name) name o.operands

/-! ### Variables -/

/-- Assignments before a command, as the variables of the process. -/
def setVariables : List Octets → Exec (List Octets)
  | [] => return []
  | a :: args => do
    if '=' ∈ a then
      let v := a.takeWhile (· != '=')
      Exec.change fun e => e.setSlot v (some ⟨some (a.drop (v.length + 1)), true, false⟩)
      setVariables args
    else return a :: args

def words (cs : Octets) : List Octets :=
  (Octets.splitOn ' ' (cs.map fun c => if Octets.isSpace c then ' ' else c)).filter (!·.isEmpty)

/-- Changes variables and goes on as another program, or prints the variables. -/
def withVariables (name : Octets) (args : List Octets) : Exec Unit := do
  let o ← optionsOf
    { flags := "i0v", valued := "uCS", anywhere := false, misuse := 125
      words := [("ignore-environment", 'i'), ("null", '0'), ("unset", 'u'), ("chdir", 'C'),
        ("split-string", 'S'), ("debug", 'v')] } name args
  let args := ((o.value? 'S').elim [] words) ++ o.operands
  let isBare := o.has 'i' || args.head? == some ['-']
  let args := if args.head? = some ['-'] then args.tail else args
  if isBare then
    Exec.change fun e => { e with bindings := e.bindings.filter fun (_, s) => !s.isExported }
  (o.given.filter (·.1 == 'u')).forM fun (_, v) => Exec.change (·.setSlot v none)
  if let some path := o.value? 'C' then
    unless (← Exec.disk).isDirectory path do
      tell name ("cannot change directory to ".toList ++ Tool.quoted path ++
        ": No such file or directory".toList)
      finish 125
    let here := (← Exec.disk).resolve path
    Exec.change (·.assign "PWD".toList here)
  match ← setVariables args with
  | [] =>
    let ends := if o.has '0' then '\x00' else '\n'
    let e ← Exec.env
    let _ ← Exec.write 1 (e.exported.flatMap fun (v, cs) => v ++ '=' :: cs ++ [ends])
    finish 0
  | program :: args => m.run (simpleLead name) program args

/-! ### Time -/

/-- The signal that a name with or without its usual beginning means, or a number. -/
def signalNamed? (a : Octets) : Option Nat :=
  Builtin.signal? (if "SIG".toList.isPrefixOf a then a.drop 3 else a)

/-- Whether a program that takes until the given time, or has no end, meets one of its limits. -/
def isLate (limits : List (Nat × Nat)) (time : Option Nat) : Bool :=
  limits.any fun l => time.all (l.1 ≤ ·)

/-- Runs a program in a process that is ended when it takes too long. -/
def withLimit (name : Octets) (args : List Octets) : Exec Unit := do
  let o ← optionsOf
    { flags := "fpv", valued := "ks", anywhere := false, misuse := 125
      words := [("foreground", 'f'), ("preserve-status", 'p'), ("verbose", 'v'),
        ("kill-after", 'k'), ("signal", 's')] } name args
  let signal ← match o.value? 's' with
    | none => pure 15
    | some s =>
      match signalNamed? s with
      | some n => pure n
      | none => misused 125 name (Tool.quoted s ++ ": invalid signal".toList)
  let lengthOf (a : Octets) : Exec Tool.Pause.Length := do
    match Tool.Pause.length? a with
    | some l => return l
    | none => misused 125 name ("invalid time interval ".toList ++ Tool.quoted a)
  let after ← match o.value? 'k' with
    | some a => lengthOf a
    | none => pure .endless
  match o.operands with
  | length :: program :: args =>
    let start := (← Exec.env).now
    let limits := match ← lengthOf length, after with
      | .ms (n + 1), .ms k => [(start + n + 1, signal), (start + n + 1 + k, 9)]
      | .ms (n + 1), .endless => [(start + n + 1, signal)]
      | _, _ => []
    let before ← get
    let free ← m.child [] (longLead name) (program :: args)
    unless isLate limits free.time do
      Exec.sleepUntil free.time
      match free.signal with
      | some n => throw (.killed n)
      | none => finish free.status
    -- what the program would have done without the limits is forgotten
    set before
    let ended ← m.child limits (longLead name) (program :: args)
    Exec.sleepUntil ended.time
    if ended.signal = some 9 then throw (.killed 9)
    finish (if o.has 'p' then ended.status else 124)
  | _ => misused 125 name "missing operand".toList

/-! ### Arguments that are read -/

/-- Items between separators, where quotes and backslashes keep characters together, and whether
all quotes are closed. -/
def items (separates : Char → Bool) : Octets → (quote : Option Char) → (current : Option Octets) →
    List Octets × Bool
  | [], none, current => (current.toList.map List.reverse, true)
  | [], some _, _ => ([], false)
  | c :: cs, some q, current =>
    if c = q then items separates cs none (some (current.getD []))
    else if c = '\n' then ([], false)
    else items separates cs (some q) (some (c :: current.getD []))
  | '\\' :: c :: cs, none, current => items separates cs none (some (c :: current.getD []))
  | c :: cs, none, current =>
    if separates c then
      let (more, closed) := items separates cs none none
      (current.toList.map List.reverse ++ more, closed)
    else if c = '"' ∨ c = '\'' then items separates cs (some c) (some (current.getD []))
    else items separates cs none (some (c :: current.getD []))

def groups {α : Type} (size : Nat) : (fuel : Nat) → List α → List (List α)
  | 0, _ => []
  | _, [] => []
  | n + 1, items => items.take size :: groups size n (items.drop size)

def fill (mark value : Octets) : (fuel : Nat) → Octets → Octets
  | 0, cs => cs
  | _, [] => []
  | n + 1, c :: cs =>
    if mark.isPrefixOf (c :: cs) ∧ ¬mark.isEmpty then
      value ++ fill mark value n ((c :: cs).drop mark.length)
    else c :: fill mark value n cs

/-- The items that an input holds, and whether it is well formed. -/
def itemsOf (o : Tool.Options) (input : Octets) : List Octets × Bool :=
  let pieces (c : Char) : List Octets × Bool :=
    let all := Octets.splitOn c input
    (if all.getLast? = some [] then all.dropLast else all, true)
  if o.has '0' then pieces '\x00'
  else
    match o.value? 'd' with
    | some ['\\', 'n'] => pieces '\n'
    | some ['\\', 't'] => pieces '\t'
    | some ['\\', '0'] => pieces '\x00'
    | some (c :: _) => pieces c
    | _ =>
      if o.has 'I' ∨ o.has 'i' then
        let (ls, closed) := items (· == '\n') input none none
        ((ls.map (·.dropWhile Octets.isSpace)).filter (!·.isEmpty), closed)
      else items Octets.isSpace input none none

def calls (o : Tool.Options) (command : List Octets) (input : Octets) : List (List Octets) :=
  let all := (itemsOf o input).1
  let mark := if o.has 'i' then some ['\x7b', '\x7d'] else o.value? 'I'
  match mark with
  | some m => all.map fun item => command.map fun a => fill m item (a.length + 1) a
  | none =>
    if all.isEmpty then (if o.has 'r' ∨ ¬(itemsOf o input).2 then [] else [command])
    else
      match (o.value? 'L').bind Tool.natural? with
      | some n =>
        let ls := input.lines.filter fun l => !l.all Octets.isSpace
        (groups (max n 1) ls.length ls).map fun g =>
          command ++ g.flatMap fun l => (items Octets.isSpace l none none).1
      | none =>
        let n := ((o.value? 'n').bind Tool.natural?).getD 5000
        (groups (max n 1) all.length all).map (command ++ ·)

/-- Runs a program with items that are read as arguments, as often as there are groups of them. -/
def withInput (name : Octets) (args : List Octets) : Exec Unit := do
  let o ← optionsOf
    { flags := "0rtpxi", valued := "ndILPsE", anywhere := false
      words := [("null", '0'), ("no-run-if-empty", 'r'), ("verbose", 't'), ("max-args", 'n'),
        ("delimiter", 'd'), ("max-lines", 'L'), ("max-procs", 'P'), ("replace", 'I')] } name args
  if (o.value? 'n').any fun n => (Tool.natural? n).all (· == 0) then
    misused 1 name ("invalid number for -n option".toList)
  let input ← readAll
  let command : List Octets := if o.operands.isEmpty then ["echo".toList] else o.operands
  let mut status := 0
  for c in calls o command input do
    let ended ← m.child [] (fun program => name ++ ": ".toList ++ program) c
    Exec.sleepUntil ended.time
    if ended.signal.isSome then finish 125
    else if ended.status = 255 then finish 124
    else if ended.status = 126 ∨ ended.status = 127 then finish ended.status
    else if ended.status ≠ 0 then status := 123
  finish (if (itemsOf o input).2 then status else 1)

end Launcher

end Program

end Allotment.Shell
