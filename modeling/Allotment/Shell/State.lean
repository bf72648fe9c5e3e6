import Allotment.Shell.Cursor
import Allotment.Tool.Table

/-!
# The state of a shell

An `Environment` belongs to one process of a script; a `World` is what all of them share: files,
what can still be read, and what has been written and when. Processes run one after another, each
with a clock of its own, and what a process does at a time later than the present one of another
process is in the world all the same, with its time.
-/

namespace Allotment.Shell

open Text (Octets)

inductive Target where
  | nowhere
  | channel (number : Nat)
  | file (path : Octets)
  | stream (number : Nat)
deriving DecidableEq, Repr

structure Stream where
  chunks : List (Octets × Nat)
  /-- When it is known that no more comes; never if there is no end. -/
  closes : Option Nat
  isFile : Bool := false

structure Writing where
  channel : Nat
  time : Nat
  octets : Octets

structure Message where
  process : Nat
  signal : Nat
  time : Nat
deriving DecidableEq, Repr

structure Hold where
  channel : Nat
  /-- Until when; for ever if there is no time. -/
  ends : Option Nat

structure World where
  disk : Tool.Disk := .initial
  streams : List (Nat × Stream) := []
  /-- The writings, the latest one first. -/
  writings : List Writing := []
  holds : List Hold := []
  /-- Signals that have not been seen to. -/
  messages : List Message := []
  /-- Signals that processes get in the course of their lives, as is known from the beginning. -/
  foreseen : List Message := []
  ended : List (Nat × Option Nat) := []
  /-- The next number for a process, a channel or a stream. -/
  fresh : Nat := 1000

/-- The value of a variable and what may be done with it. -/
structure Slot where
  value : Option Octets
  isExported : Bool := false
  isReadonly : Bool := false

structure Job where
  process : Nat
  ends : Option Nat
  status : Nat
  signal : Option Nat
  isOver : Bool := false

structure Environment where
  now : Nat := 0
  process : Nat := 999
  /-- The process of the shell that it began as. -/
  shell : Nat := 999
  /-- The processes that wait for this one or started it, the nearest one first. -/
  ancestors : List Nat := [998]
  /-- The times at which limits end it, each with a signal. -/
  limits : List (Nat × Nat) := []
  name : Octets
  tools : List (String × Tool) := Tool.shellTable
  line : Nat := 1
  bindings : List (Octets × Slot) := []
  parameters : List Octets := []
  status : Nat := 0
  functions : List (Octets × Command) := []
  descriptors : List (Nat × Target)
  aliases : List (Octets × Octets) := []
  /-- What nobody may do with new files, in nine bits. -/
  mask : Nat := 18
  options : List Char := []
  /-- What is done on signals; number zero is the end of the shell. -/
  traps : List (Nat × Octets) := []
  pending : List Nat := []
  jobs : List Job := []
  lastJob : Option Nat := none
  documents : List (Nat × Word) := []
  loops : Nat := 0
  /-- A failure of a command is looked at, so that it does not end the script. -/
  isTested : Bool := false
  /-- The status of the last commands whose output was put into the present one. -/
  captured : Option Nat := none
  /-- What the variables of functions were before, for each function that is open. -/
  locals : List (List (Octets × Option Slot)) := []

structure State where
  env : Environment
  world : World := {}

/-- The later one of two times, of which one or both may never come. -/
def later : Option Nat → Option Nat → Option Nat
  | some a, some b => some (max a b)
  | _, _ => none

/-- Puts a value under a key, in the place of an old one if there is one. -/
def update {α β : Type} [BEq α] (key : α) (value : β) (entries : List (α × β)) : List (α × β) :=
  if entries.any (·.1 == key) then
    entries.map fun e => if e.1 == key then (key, value) else e
  else entries ++ [(key, value)]

namespace Environment

def optionLetters : List Char :=
  "efIimnsxvVECabu".toList

def tool? (e : Environment) (name : Octets) : Option Tool :=
  (e.tools.find? fun t => t.1.toList = name).map (·.2)

def value? (e : Environment) (name : Octets) : Option Octets :=
  (e.bindings.lookup name).bind (·.value)

def assign (e : Environment) (name value : Octets) : Environment :=
  let slot := (e.bindings.lookup name).getD ⟨none, false, false⟩
  { e with bindings := update name { slot with
      value := some value
      isExported := slot.isExported || e.options.contains 'a' } e.bindings }

def setSlot (e : Environment) (name : Octets) (slot : Option Slot) : Environment :=
  match slot with
  | some slot => { e with bindings := update name slot e.bindings }
  | none => { e with bindings := e.bindings.filter (·.1 != name) }

def exported (e : Environment) : List (Octets × Octets) :=
  e.bindings.filterMap fun (name, slot) =>
    if slot.isExported then slot.value.map fun v => (name, v) else none

end Environment

/-- What keeps a command from going on to the next one. -/
inductive Interruption where
  /-- Leaves so many loops, or all but the last one of them. -/
  | leave (loops : Nat) (isAgain : Bool)
  | returned
  | exited (status : Nat)
  | killed (signal : Nat)
  | endless
  /-- A process that has been run already was sent a signal. -/
  | tooLate (m : Message)
deriving DecidableEq, Repr

/-- Running commands. What was done before an interruption stays done. -/
abbrev Exec := ExceptT Interruption (StateM State)

namespace Exec

def env : Exec Environment := do
  return (← get).env

def disk : Exec Tool.Disk := do
  let s ← get
  return { s.world.disk with here := (s.env.value? "PWD".toList).getD ['/'] }

def change (f : Environment → Environment) : Exec Unit :=
  modify fun s => { s with env := f s.env }

def changeWorld (f : World → World) : Exec Unit :=
  modify fun s => { s with world := f s.world }

def fresh : Exec Nat := do
  let n := (← get).world.fresh
  changeWorld fun w => { w with fresh := n + 1 }
  return n

def setStatus (n : Nat) : Exec Unit :=
  change fun e => { e with status := n }

/-- Waits until the given time; it is never reached if there is none. -/
def waitUntil (time : Option Nat) : Exec Unit :=
  match time with
  | some t => change fun e => { e with now := max e.now t }
  | none => throw .endless

/-! ### Output -/

/-- Writes octets to a descriptor and tells whether that was possible. -/
def write (descriptor : Nat) (cs : Octets) : Exec Bool := do
  let e ← env
  match e.descriptors.lookup descriptor with
  | some .nowhere => return true
  | some (.channel n) =>
    unless cs.isEmpty do
      changeWorld fun w => { w with writings := ⟨n, e.now, cs⟩ :: w.writings }
    return true
  | some (.file path) =>
    -- the path of an open file leads from the root
    if path = "/dev/full".toList then return cs.isEmpty
    changeWorld fun w =>
      { w with disk := w.disk.write path ((w.disk.content? path).getD [] ++ cs) }
    return true
  | some (.stream _) => return cs.isEmpty
  | none => return cs.isEmpty

def complain (message : Octets) : Exec Unit := do
  let e ← env
  let _ ← write 2 (e.name ++ ": ".toList ++ Octets.ofNat e.line ++ ": ".toList ++ message ++
    ['\n'])

def fail {α : Type} (message : Octets) : Exec α := do
  complain message
  setStatus 2
  throw (.exited 2)

/-! ### Variables -/

def greatestLength : Nat := 4000000

/-- Gives a variable a value. One that is read-only ends the shell. -/
def assign (name value : Octets) : Exec Unit := do
  let e ← env
  if (e.bindings.lookup name).any (·.isReadonly) then
    fail (name ++ ": is read only".toList)
  else if greatestLength < value.length then throw .endless
  else change (·.assign name value)

/-! ### Input -/

/-- What can be read from a descriptor, and from which stream: nothing if the descriptor leads
nowhere, and no result if it is closed or leads to output. -/
def input? (descriptor : Nat) : Exec (Option (Stream × Option Nat)) := do
  let s ← get
  match s.env.descriptors.lookup descriptor with
  | some .nowhere => return some (⟨[], some 0, false⟩, none)
  | some (.stream n) => return some ((s.world.streams.lookup n).getD ⟨[], some 0, false⟩, some n)
  | _ => return none

def leaveRest (number : Option Nat) (rest : Stream) : Exec Unit :=
  match number with
  | some n => changeWorld fun w => { w with streams := update n rest w.streams }
  | none => return ()

def newStream (s : Stream) : Exec Nat := do
  let n ← fresh
  changeWorld fun w => { w with streams := (n, s) :: w.streams }
  return n

/-- Takes what was written to a channel out of the world, the earliest writing first, and tells
when the channel is closed if a process holds it open until the given time. -/
def drain (channel : Nat) (ends : Option Nat) : Exec (List Writing × Option Nat) := do
  let w := (← get).world
  let mine := w.writings.filter (·.channel == channel)
  let holds := w.holds.filter (·.channel == channel)
  changeWorld fun w =>
    { w with writings := w.writings.filter (·.channel != channel)
             holds := w.holds.filter (·.channel != channel) }
  let closes := holds.foldl (fun t h => later t h.ends) ends
  return (mine.reverse.mergeSort fun a b => a.time ≤ b.time, closes)

end Exec

end Allotment.Shell
