import Allotment.Shell.Builtin.Variables
import Allotment.Shell.Message

/-!
# Signals and other processes

What is done on signals, who gets them, and who is waited for.
-/

namespace Allotment.Shell

open Text (Octets)

namespace Builtin

def signal? (a : Octets) : Option Nat :=
  match Tool.natural? a with
  | some n => if n ≤ Signal.greatest then some n else none
  | none => Signal.ofLabel? (String.ofList a)

/-- The same where the end of the shell counts as signal number zero. -/
def signalOrEnd? (a : Octets) : Option Nat :=
  if a.map Char.toUpper = "EXIT".toList then some 0 else signal? a

def trap : Builtin := fun args => do
  let args := if args.head? = some ['-', '-'] then args.tail else args
  let name (n : Nat) : Octets :=
    if n = 0 then "EXIT".toList else (Signal.label n).toList
  match args with
  | [] =>
    let e ← Exec.env
    let shown := (e.traps.mergeSort fun a b => a.1 ≤ b.1).flatMap fun (n, action) =>
      "trap -- ".toList ++ inQuotes action ++ ' ' :: name n ++ ['\n']
    let _ ← Exec.write 1 shown
    return 0
  | a :: more =>
    let (action, signals) : Option Octets × List Octets :=
      if more.isEmpty ∨ (Tool.natural? a).isSome then (none, args)
      else (if a = ['-'] then none else some a, more)
    let mut status := 0
    for s in signals do
      match signalOrEnd? s with
      | some n =>
        Exec.change fun e =>
          let others := e.traps.filter (·.1 != n)
          { e with traps := match action with
              | some cs => others ++ [(n, cs)]
              | none => others }
      | none =>
        let _ ← Exec.write 2 ("trap: ".toList ++ s ++ ": bad trap\n".toList)
        status := 1
    return status

/-- Sends a signal to a process. The result tells whether there is one. A process beside the script
has been run already, so if it was not foreseen that it would get this signal, all has to be run
again. -/
def send (n process : Nat) : Exec Bool := do
  let s ← get
  let m : Message := ⟨process, n, s.env.now⟩
  if process = s.env.process then
    Exec.receive n
    return true
  else if process ∈ s.env.ancestors then
    Exec.changeWorld fun w => { w with messages := w.messages ++ [m] }
    return true
  else
    match s.world.ended.lookup process with
    | none => return false
    | some ends =>
      if m ∈ s.world.foreseen then return true
      if ends.any (· ≤ s.env.now) then return false
      if Signal.action n = .nothing ∧ n = 0 then return true
      throw (.tooLate m)

def process? (e : Environment) (a : Octets) : Option Nat :=
  match a with
  | '%' :: ds =>
    if ds.isEmpty ∨ ds = ['%'] ∨ ds = ['+'] then e.jobs.getLast?.map (·.process)
    else (Tool.natural? ds).bind fun n => (e.jobs[n - 1]?).map (·.process)
  | '-' :: ds => number? ds
  | _ => number? a

def kill : Builtin := fun args => do
  let usage : Exec Nat :=
    complain "kill" ("Usage: kill [-s sigspec | -signum | -sigspec] [pid | job]... or\n".toList ++
      "kill -l [exitstatus]".toList)
  let sendAll (n : Nat) (targets : List Octets) : Exec Nat := do
    if targets.isEmpty then return ← usage
    let mut status := 0
    for t in targets do
      match process? (← Exec.env) t with
      | none => return ← complain "kill" ("Illegal number: ".toList ++ t)
      | some p =>
        unless ← send n p do
          let _ ← complain "kill" "No such process\n".toList
          status := 1
    return status
  let unknown (a : Octets) : Exec Nat :=
    complain "kill" ("invalid signal number or name: ".toList ++ a)
  let skip (targets : List Octets) : List Octets :=
    if targets.head? = some ['-', '-'] then targets.tail else targets
  match args with
  | [] => usage
  | ['-', 'l'] :: [] =>
    let names := (List.range (Signal.greatest + 1)).map fun n => (Signal.label n).toList
    let _ ← Exec.write 1 (Octets.unlines names)
    return 0
  | ['-', 'l'] :: a :: _ =>
    match number? a with
    | none => complain "kill" ("Illegal number: ".toList ++ a)
    | some n =>
      let n := if 128 < n then n - 128 else n
      if 0 < n ∧ n ≤ Signal.greatest then
        let _ ← Exec.write 1 ((Signal.label n).toList ++ ['\n'])
        return 0
      else complain "kill" ("invalid signal number or exit status: ".toList ++ a)
  | ['-', 's'] :: a :: targets =>
    match signal? a with
    | some n => sendAll n (skip targets)
    | none => unknown a
  | ['-', '-'] :: targets => sendAll 15 targets
  | ('-' :: 's' :: a) :: targets =>
    match signal? ('s' :: a) with
    | some n => sendAll n (skip targets)
    | none =>
      match signal? a with
      | some n => sendAll n (skip targets)
      | none => unknown a
  | ('-' :: a) :: targets =>
    match signal? a with
    | some n => sendAll n (skip targets)
    | none => complain "kill" ("Illegal option -".toList ++ a.take 1)
  | targets => sendAll 15 targets

/-- Waits for the end of a process, or for a signal for which something is to be done. -/
def waitFor (j : Job) : (count : Nat) → Exec Nat
  | 0 => return j.status
  | n + 1 => do
    match ← Exec.heedNext j.ends with
    | some signal =>
      if (← Exec.env).pending.isEmpty then waitFor j n else return 128 + signal
    | none =>
      Exec.waitUntil j.ends
      Exec.change fun e =>
        { e with jobs := e.jobs.map fun k =>
            if k.process == j.process then { k with isOver := true } else k }
      return j.status

def wait : Builtin := fun args => do
  let count := (← Exec.arrivals none).length + 1
  if args.isEmpty then
    for j in (← Exec.env).jobs do
      let status ← waitFor j count
      unless (← Exec.env).pending.isEmpty do return status
    return 0
  let mut status := 0
  for a in args do
    let e ← Exec.env
    match (process? e a).bind fun p => e.jobs.find? (·.process == p) with
    | some j =>
      status ← waitFor j count
      unless (← Exec.env).pending.isEmpty do return status
      if let some n := j.signal then Exec.tellEnd n
    | none =>
      if a.head? = some '%' then return ← complain "wait" ("No such job: ".toList ++ a)
      if (number? a).isNone then return ← complain "wait" ("Illegal number: ".toList ++ a)
      status := 127
  return status

end Builtin

end Allotment.Shell
