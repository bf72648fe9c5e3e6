import Allotment.Watch.Procedure

/-!
# Sessions

A `Session` is a watch that asks for its listings itself. The answers come from a `Script`, which
gives the answer to each query by its number. Besides single queries there are loops: a loop queries
when it starts and then once in every period. Time passes only by `Session.advance`, and queries
take no time. The session has a hold on the loop that was started last; the loops before it go on
unheeded.
-/

namespace Allotment

/-- The answers to all queries, the first one for number zero. -/
abbrev Script (ε : Type) := Nat → Except ε (List String)

/-- The script that gives the answers of a list, then the last one for ever. -/
def Script.ofList {ε : Type} (first : Except ε (List String)) :
    List (Except ε (List String)) → Script ε
  | [], _ => first
  | _ :: _, 0 => first
  | second :: more, n + 1 => ofList second more n

/-- A loop of queries. -/
structure Loop where
  /-- Milliseconds between two queries. -/
  period : Nat
  /-- When the next query is due. -/
  due : Nat
  period_pos : 0 < period

/-- A watch with the source of its listings. -/
structure Session (ε : Type) where
  watch : Watch
  script : Script ε
  /-- How many queries have been made. -/
  queries : Nat
  /-- Milliseconds since the session was opened. -/
  now : Nat
  /-- The loop that was started last, until it is ended. -/
  loop : Option Loop
  /-- The loops that were started before others and not ended. -/
  unheeded : List Loop

namespace Session

variable {ε : Type}

def new (watch : Watch) (script : Script ε) : Session ε where
  watch := watch
  script := script
  queries := 0
  now := 0
  loop := none
  unheeded := []

def sample (s : Session ε) : Except ε Survey × Session ε :=
  let (result, watch) := s.watch.sample (s.script s.queries)
  (result, { s with watch, queries := s.queries + 1 })

/-- Makes a query of the loop, which goes on whatever the answer is. -/
def sampleInLoop (s : Session ε) : Session ε :=
  s.sample.2

/-- Starts a loop with a query in every interval of so many milliseconds, or in every millisecond
if the interval is zero. The first query is made at once. -/
def startLoop (s : Session ε) (interval : Nat) : Session ε :=
  let period := max interval 1
  { s.sampleInLoop with
    loop := some ⟨period, s.now + period, by omega⟩
    unheeded := s.loop.toList ++ s.unheeded }

/-- The queries of a loop that are due up to the time `now`, and the loop after them. -/
def catchUp (l : Loop) (now : Nat) (s : Session ε) : Loop × Session ε :=
  if l.due ≤ now then
    catchUp { l with due := l.due + l.period } now s.sampleInLoop
  else
    (l, s)
termination_by now + 1 - l.due
decreasing_by
  have := l.period_pos
  simp_wf
  omega

/-- The queries of several loops that are due up to the time `now`. All loops ask the same source,
so it makes no difference which of them makes a query. -/
def catchUpAll (now : Nat) : List Loop → Session ε → List Loop × Session ε
  | [], s => ([], s)
  | l :: ls, s =>
    let (l, s) := catchUp l now s
    let (ls, s) := catchUpAll now ls s
    (l :: ls, s)

/-- Lets time pass; all queries due in it are made. -/
def advance (s : Session ε) (ms : Nat) : Session ε :=
  let now := s.now + ms
  let (loops, s') := catchUpAll now s.loop.toList { s with now }
  let (unheeded, s'') := catchUpAll now s.unheeded s'
  { s'' with loop := loops.head?, unheeded }

/-- Ends the loop that was started last, if it has not been ended. -/
def endLoop (s : Session ε) : Session ε :=
  { s with loop := none }

end Session

end Allotment
