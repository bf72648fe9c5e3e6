import Allotment.Shell.Process

/-!
# Programs as processes

What programs need of the shell that runs them: how a tool reads its input and writes its output
in the course of time, and how a process ends.
-/

namespace Allotment.Shell

open Text (Octets)

namespace Program

abbrev RunText := Octets → Exec Unit

/-- The octets that can be read up to the given time are taken, and the others are left. -/
def takeUntil (time : Nat) (s : Stream) : Stream :=
  { s with chunks := s.chunks.filter fun c => time < c.2 }

def timeOf (count : Nat) (s : Stream) : Option Nat :=
  match s.chunks.foldl (fun (found : Option Nat × Nat) c =>
      match found with
      | (some t, n) => (some t, n)
      | (none, n) =>
        if count ≤ n + c.1.length then (some c.2, n) else (none, n + c.1.length)) (none, 0) with
  | (some t, _) => some t
  | (none, _) => s.closes

/-- Writes the output of a tool. The result tells whether that was possible. -/
def writeAll (o : Tool.Outcome) (chunks : List (Octets × Nat)) : Exec Bool := do
  let isCopy := o.isPrompt && o.output == chunks.flatMap (·.1)
  if isCopy then
    let results ← chunks.mapM fun (cs, t) => do
      Exec.sleepUntil (some t)
      Exec.write 1 cs
    return results.all id
  else Exec.write 1 o.output

/-- Runs a tool in the present process and gives its status. The messages get the given lead. -/
def useTool (t : Tool) (name : Octets) (args : List Octets) (tell : Octets → Exec Unit) :
    Exec Nat := do
  let s ← get
  let source ← Exec.input? 0
  let (stream, number) := source.getD (⟨[], some 0, false⟩, none)
  let o := t {
    name, args
    input := stream.chunks.flatMap (·.1)
    inputIsFile := stream.isFile
    disk := ← Exec.disk
    isProgram := fun path => path.contains '/' && (Builtin.path? s.env path).isSome
    bindings := s.env.exported }
  if source.isNone ∧ o.waits ≠ .nothing then
    tell "-: Bad file descriptor".toList
    return 1
  let ready ← match o.waits with
    | .nothing => pure (some s.env.now)
    | .octets n => do
      let t := timeOf n stream
      Exec.leaveRest number (takeUntil (t.getD 0) stream)
      pure t
    | .all => do
      Exec.leaveRest number { stream with chunks := [] }
      pure stream.closes
  if ready.isNone ∧ ¬o.isPrompt then Exec.goOn
  unless o.isPrompt do Exec.sleepUntil ready
  let tellsFirst := !o.isPrompt || o.output.isEmpty
  if tellsFirst then o.messages.forM tell
  let ok ← writeAll o stream.chunks
  Exec.sleepUntil ready
  Exec.sleepUntil (some ((← Exec.env).now + o.pause))
  unless tellsFirst do o.messages.forM tell
  if let some disk := o.written then Exec.changeWorld fun w => { w with disk }
  if o.endless then Exec.goOn
  if ok then return o.status
  tell "write error: Bad file descriptor".toList
  return 1

def tell (name : Octets) (message : Octets) : Exec Unit := do
  let _ ← Exec.write 2 (name ++ ": ".toList ++ message ++ ['\n'])

def readAll : Exec Octets := do
  match ← Exec.input? 0 with
  | none => return []
  | some (stream, number) =>
    Exec.leaveRest number { stream with chunks := [] }
    Exec.sleepUntil stream.closes
    return stream.chunks.flatMap (·.1)

def finish {α : Type} (status : Nat) : Exec α := do
  Exec.setStatus status
  throw (.exited status)

end Program

end Allotment.Shell
