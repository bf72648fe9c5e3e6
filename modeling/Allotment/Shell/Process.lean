import Allotment.Shell.Builtin.Table
import Allotment.Shell.Grammar

/-!
# Processes

Commands that run in a process of their own: one whose end is waited for, the stages of a pipeline,
one whose output is captured, and one that runs beside the script.
-/

namespace Allotment.Shell

open Text (Octets)

structure Ended where
  status : Nat
  /-- When; never if there is no time. -/
  time : Option Nat
  signal : Option Nat := none

namespace Exec

/-- Runs commands and tells how they were interrupted, if they were. -/
def observe {α : Type} (x : Exec α) : Exec (Except Interruption α) :=
  ExceptT.lift x.run

/-- Runs commands and then changes the environment, whether they were interrupted or not. The
change is told the environment before them and the one after them. -/
def thenChange {α : Type} (f : Environment → Environment → Environment) (x : Exec α) : Exec α := do
  let before ← env
  let r ← observe x
  change (f before)
  MonadExcept.ofExcept r

def tested {α : Type} (x : Exec α) : Exec α :=
  thenChange (fun before after => { after with isTested := before.isTested }) do
    change fun e => { e with isTested := true }
    x

/-- Runs what was to be done at the end of the shell, after all commands. -/
def withTrap (text : Octets → Exec Unit) (x : Exec Unit) : Exec Unit := do
  let r ← observe x
  let e ← env
  let status := e.status
  let finish : Exec Unit :=
    match e.traps.lookup 0 with
    | none | some [] => return ()
    | some action => do
      change fun e => { e with traps := e.traps.filter (·.1 != 0) }
      text action
      setStatus status
  match r with
  | .error (.killed n) => throw (.killed n)
  | .error .endless => throw .endless
  | .error (.tooLate m) => throw (.tooLate m)
  | .error (.exited n) => do
    finish
    throw (.exited n)
  | _ => finish

/-- Runs commands in a new process, in an environment that is changed first. -/
def process (text : Octets → Exec Unit) (prepare : Environment → Environment) (x : Exec Unit) :
    Exec (Nat × Ended) := do
  let n ← fresh
  let outer ← env
  change fun e => prepare { e with
    process := n, ancestors := e.process :: e.ancestors, jobs := [], pending := []
    traps := e.traps.filter (·.2.isEmpty) }
  let r ← observe (withTrap text x)
  let inner ← env
  change fun _ => outer
  let ended : Ended ← match r with
    | .error (.tooLate m) => throw (.tooLate m)
    | .ok () => pure ⟨inner.status, some inner.now, none⟩
    | .error (.exited status) => pure ⟨status, some inner.now, none⟩
    | .error (.killed signal) => pure ⟨128 + signal, some inner.now, some signal⟩
    | .error .endless => pure ⟨0, none, none⟩
    | .error _ => pure ⟨inner.status, some inner.now, none⟩
  changeWorld fun w => { w with ended := (n, ended.time) :: w.ended }
  return (n, ended)

/-- Keeps the channels to which the process can write open until the given time. -/
def hold (ends : Option Nat) : Exec Unit := do
  let e ← env
  let held := e.descriptors.filterMap fun
    | (_, .channel n) => some (⟨n, ends⟩ : Hold)
    | _ => none
  changeWorld fun w => { w with holds := held ++ w.holds }

/-- Waits until the given time and takes over the status of a process that has ended by then. If the
process that waits is ended by a signal, the other one goes on. -/
def awaitUntil (time : Option Nat) (ended : Ended) : Exec Unit := do
  match ← observe (sleepUntil time) with
  | .error (.killed n) =>
    hold ended.time
    throw (.killed n)
  | r => MonadExcept.ofExcept r
  if let some n := ended.signal then tellEnd n
  setStatus ended.status

def await (ended : Ended) : Exec Unit :=
  awaitUntil ended.time ended

def withDescriptor (number : Nat) (descriptor : Target) (e : Environment) : Environment :=
  { e with descriptors := (number, descriptor) :: e.descriptors.filter (·.1 != number) }

/-- Runs commands in a new process and gives what they write, without line ends after it. -/
def capture (text : Octets → Exec Unit) (x : Exec Unit) : Exec Octets := do
  let channel ← fresh
  let prepare (e : Environment) : Environment :=
    { withDescriptor 1 (.channel channel) e with isTested := false }
  let (_, ended) ← process text prepare x
  let (writings, closes) ← drain channel ended.time
  sleepUntil (later closes ended.time)
  change fun e => { e with captured := some ended.status }
  let cs := (writings.flatMap (·.octets)).filter (· != '\x00')
  return (cs.reverse.dropWhile (· == '\n')).reverse

/-! ### Pipelines -/

/-- A stage of a pipeline after its end, with the times at which it wrote to the next one. -/
structure Stage where
  ended : Ended
  times : List Nat

/-- When a stage ends, given the end of the one that reads from it: a stage that writes to no one
ends with its writing. -/
def Stage.ends (s : Stage) (reader : Option Nat) : Option Nat :=
  match reader with
  | none => s.ended.time
  | some r =>
    match s.times.find? (r < ·), s.ended.time with
    | some t, some e => some (min t e)
    | some t, none => some t
    | none, some e => some e
    | none, none => if s.times.isEmpty then none else some r

/-- Runs the stages one after another, all of them from the same time on. -/
def stages (text : Octets → Exec Unit) (command : Command → Exec Unit) :
    (input : Option Target) → List Command → Exec (List Stage)
  | _, [] => return []
  | input, [c] => do
    let prepare (e : Environment) : Environment := input.elim e fun t => withDescriptor 0 t e
    let (_, ended) ← process text prepare (command c.alone)
    return [⟨ended, []⟩]
  | input, c :: cs => do
    let channel ← fresh
    let prepare (e : Environment) : Environment :=
      withDescriptor 1 (.channel channel) (input.elim e fun t => withDescriptor 0 t e)
    let (_, ended) ← process text prepare (command c.alone)
    let (writings, closes) ← drain channel ended.time
    let stream ← newStream { chunks := writings.map fun w => (w.octets, w.time), closes }
    let more ← stages text command (some (.stream stream)) cs
    return ⟨ended, writings.map (·.time)⟩ :: more

def pipeline (text : Octets → Exec Unit) (command : Command → Exec Unit) (cs : List Command) :
    Exec Unit := do
  let all ← stages text command none cs
  match all.reverse with
  | [] => return ()
  | last :: before =>
    let (_, total) := before.foldl (fun (reader, total) s =>
      let t := s.ends reader
      (t, later total t)) (last.ended.time, last.ended.time)
    before.reverse.forM fun s =>
      if let some n := s.ended.signal then tellEnd n else return ()
    awaitUntil total last.ended

/-! ### Beside the script -/

/-- The redirections that a command makes for itself. A shell that calls a function or one of its
own commands keeps what it had before, and of a pipeline the last command counts. -/
def redirectionsOf (e : Environment) : Command → List Redirection
  | .simple _ _ (([.text name false]) :: _) rs =>
    match Builtin.meaning e name with
    | .program _ => rs
    | _ => []
  | .simple _ _ _ rs => rs
  | .redirected _ rs => rs
  | .pipeline _ cs =>
    match cs.getLast? with
    | some (.simple _ _ _ rs) => rs
    | some (.redirected _ rs) => rs
    | _ => []
  | _ => []

/-- The channels to which a process can write after it has made redirections. -/
def channels (e : Environment) (rs : List Redirection) : List Nat :=
  let after (ds : List (Nat × Target)) : Redirection → List (Nat × Target)
    | .mk descriptor kind word =>
      let target : Option Target := match kind with
        | .sameOutput | .sameInput =>
          (Tool.natural? (Parse.verbatim word).1).bind fun n => ds.lookup n
        | _ => none
      (target.map fun t => (descriptor, t)).toList ++ ds.filter (·.1 != descriptor)
  (rs.foldl after e.descriptors).filterMap fun
    | (_, .channel n) => some n
    | _ => none

/-- How many milliseconds it takes until a process beside the script begins. -/
def startTime : Nat := 1

def beside (text : Octets → Exec Unit) (command : Command → Exec Unit) (c : Command) :
    Exec Unit := do
  let e ← env
  let prepare (e : Environment) : Environment :=
    { withDescriptor 0 .nowhere e with now := e.now + startTime, isTested := false }
  let (n, ended) ← process text prepare (command c.alone)
  changeWorld fun w =>
    { w with holds := (channels e (redirectionsOf e c)).map (⟨·, ended.time⟩) ++ w.holds }
  change fun e =>
    { e with
      jobs := e.jobs.filter (!·.isOver) ++ [⟨n, ended.time, ended.status, ended.signal, false⟩]
      lastJob := some n
      status := 0 }

end Exec

end Allotment.Shell
