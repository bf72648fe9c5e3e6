import Allotment.Watch.Session

/-!
# Requests to a session

A session is asked for single queries, for containers to be watched or not to be watched any more,
and for what is known. Questions about devices and processes go to the survey in force, and those
about applications to the tally.
-/

namespace Allotment

open Usage (App Tally)

namespace Survey

/-- Questions about devices and processes. -/
inductive Question where
  | survey
  | tick
  | statuses
  | memoryOfProcess (process : Nat)
  | memoryOfDevice (device : Nat)
  | choice (required : Int)

/-- The answer to a question about devices and processes. -/
inductive Reply where
  | survey (s : Survey)
  | tick (n : Nat)
  | statuses (l : List DeviceStatus)
  | memory (m : Int)
  | choice (device : Option Nat)

def reply (s : Survey) : Question → Reply
  | .survey => .survey s
  | .tick => .tick s.tick
  | .statuses => .statuses s.statuses
  | .memoryOfProcess process => .memory (s.memoryOfProcess process)
  | .memoryOfDevice device => .memory (s.memoryOfDevice device)
  | .choice required => .choice ((DeviceStatus.choose? s.statuses required).map (·.device))

end Survey

namespace Usage

/-- Questions about applications. -/
inductive Question where
  | utilization (app : App)
  | history

/-- The answer to a question about applications. -/
inductive Reply where
  | utilization (n : Nat)
  | history (usages : List AppUsage)

def Tally.reply (t : Tally) : Question → Reply
  | .utilization app => .utilization (t.utilization app)
  | .history => .history t.history

end Usage

namespace Session

variable {ε : Type}

/-- What a session may be asked for. -/
inductive Request where
  | sample
  | start (app : App) (container : String)
  | stop (app : App) (container : String)
  | see (utilization : Nat)
  | ask (q : Survey.Question)
  | askUsage (q : Usage.Question)

def Request.isSample : Request → Bool
  | .sample => true
  | _ => false

/-- What a session answers. -/
inductive Response (ε : Type) where
  | sampled (result : Except ε Survey)
  | started (containers : Nat)
  | stopped (wasWatched : Bool)
  | noted
  | told (x : Survey.Reply)
  | toldUsage (x : Usage.Reply)

def Response.survey? : Response ε → Option Survey
  | .sampled result => result.toOption
  | _ => none

/-- The response to a request and the session after it. -/
def handle (s : Session ε) : Request → Response ε × Session ε
  | .sample =>
    let (result, s) := s.sample
    (.sampled result, s)
  | .start app container =>
    let (containers, watch) := s.watch.start app container
    (.started containers, { s with watch })
  | .stop app container =>
    let (wasWatched, watch) := s.watch.stop app container
    (.stopped wasWatched, { s with watch })
  | .see utilization => (.noted, { s with watch := s.watch.see utilization })
  | .ask q => (.told (s.watch.survey.reply q), s)
  | .askUsage q => (.toldUsage (s.watch.tally.reply q), s)

/-- The responses to requests, one after another, and the session after the last. -/
def play (s : Session ε) : List Request → List (Response ε) × Session ε
  | [] => ([], s)
  | x :: xs =>
    let (y, s) := s.handle x
    let (ys, s) := s.play xs
    (y :: ys, s)

end Session

end Allotment
