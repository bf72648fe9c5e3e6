import Allotment.Shell.State
import Allotment.Signal

/-!
# Signals that reach a process

A process gets the signals that others send it, and those of the limits of time within which it
runs. It takes notice of them when it waits.
-/

namespace Allotment.Shell

namespace Exec

def tellEnd (signal : Nat) : Exec Unit := do
  unless signal = 2 ∨ signal = 13 do
    let _ ← write 2 ((Signal.description signal).toList ++ ['\n'])

/-- The messages and limits that reach the process up to the given time, or ever if there is none,
the earliest one first. -/
def arrivals (time : Option Nat) : Exec (List Message) := do
  let s ← get
  let isInTime (m : Message) : Bool := time.all (m.time ≤ ·)
  let limits := s.env.limits.map fun (t, n) => (⟨s.env.process, n, t⟩ : Message)
  let mine := s.world.messages.filter (·.process == s.env.process)
  return ((limits ++ mine).filter isInTime).mergeSort fun a b => a.time ≤ b.time

/-- Waits for a message or limit and takes it out of those that are to come. -/
def forget (m : Message) : Exec Unit := do
  changeWorld fun w => { w with messages := w.messages.filter (· != m) }
  change fun e =>
    { e with now := max e.now m.time
             limits := e.limits.filter fun l => l != (m.time, m.signal) }

def stop : Exec Unit := do
  match (← arrivals none).find? fun m => m.signal = 18 ∨ m.signal = 9 with
  | some m =>
    forget m
    if m.signal = 9 then throw (.killed 9)
  | none => throw .endless

def receive (n : Nat) : Exec Unit := do
  let e ← env
  match if Signal.isAbsolute n then none else e.traps.lookup n with
  | some [] => return ()
  | some _ =>
    if n = 0 then return ()
    change fun e => { e with pending := e.pending ++ [n] }
  | none =>
    match Signal.action n with
    | .nothing => return ()
    | .stops => stop
    | .ends => throw (.killed n)

/-- Takes notice of the first message or limit that reaches the process up to the given time, and
gives its signal. -/
def heedNext (time : Option Nat) : Exec (Option Nat) := do
  match ← arrivals time with
  | [] => return none
  | m :: _ =>
    forget m
    receive m.signal
    return some m.signal

/-- Takes notice of so many messages and limits that reach the process up to the given time. -/
def heedSome (time : Option Nat) : (count : Nat) → Exec Unit
  | 0 => return ()
  | n + 1 => do
    if (← heedNext time).isSome then heedSome time n

/-- Takes notice of all messages and limits that reach the process up to the given time. -/
def heed (time : Option Nat) : Exec Unit := do
  heedSome time (← arrivals time).length

/-- Waits until the given time, or until a signal ends the process. -/
def sleepUntil (time : Option Nat) : Exec Unit := do
  heed time
  waitUntil time

def goOn {α : Type} : Exec α := do
  heed none
  throw .endless

end Exec

end Allotment.Shell
