import Allotment.Watch.Basic

/-!
# Sampling

How the answer to a query is brought into a watch: in place and one part after another. First the
success is counted. Then the survey is built, device by device, and the total of a device that is
seen for the first time is written down on the way. The survey takes the place of the one before,
and last the utilization of its devices is noted for the applications. A query that failed ends the
procedure before anything is written; nothing would be rolled back.
-/

namespace Allotment.Watch

open Status (Listing)

/-- What is carried out on a watch in place. A failure leaves the watch as it was last written. -/
abbrev Procedure (ε : Type) := EStateM ε Watch

namespace Procedure

variable {ε : Type}

def receive (answer : Except ε (List String)) : Procedure ε (List String) :=
  match answer with
  | .ok lines => return lines
  | .error e => throw e

def count : Procedure ε Nat := do
  modify fun w => { w with ticks := w.ticks + 1 }
  return (← get).ticks

/-- The total memory of a device, which is the given one if none is known yet. -/
def totalOf (device : Nat) (observed : Int) : Procedure ε Int := do
  modify fun w => { w with totals := w.totals.insertIfNew device observed }
  return (← get).totals.getD device 0

def observe (l : Listing) (device : Nat) : Procedure ε Gauge := do
  let (total, used) ← match l.memory[device]? with
    | some figures => do pure (← totalOf device figures.total, figures.used)
    | none => do pure ((← get).totals.getD device 0, 0)
  return .ofUsed total used (l.utilization[device]?.getD 0)

def build (tick : Nat) (l : Listing) : Procedure ε Survey := do
  let gauges ← (List.range l.deviceCount).mapM (observe l)
  let w ← get
  return {
    tick
    taken := true
    gauges
    processMemory := l.rows.foldl (Survey.addRow w.tree w.depth) ∅ }

def publish (s : Survey) : Procedure ε Unit :=
  modify fun w => { w with survey := s }

/-- Takes note of the utilization of devices for their applications. -/
def note (s : Survey) : Procedure ε Unit :=
  s.gauges.zipIdx.forM fun (g, device) =>
    modify fun w => { w with tally := w.tally.seeOn device g.utilization }

/-- Brings in the answer to a query: the lines of a listing, or the reason of a failure. -/
def sample (answer : Except ε (List String)) : Procedure ε Survey := do
  let lines ← receive answer
  let listing := Listing.ofLines lines
  let tick ← count
  let survey ← build tick listing
  publish survey
  note survey
  return survey

end Procedure

/-- What comes of the answer to a query, and the watch after it. -/
def sample {ε : Type} (w : Watch) (answer : Except ε (List String)) : Except ε Survey × Watch :=
  match (Procedure.sample answer).run w with
  | .ok survey w' => (.ok survey, w')
  | .error e w' => (.error e, w')

end Allotment.Watch
