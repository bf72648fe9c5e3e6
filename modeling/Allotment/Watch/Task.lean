import Allotment.Watch.Session

/-!
# Loops as tasks

`Session.advance` makes the queries of a loop in one go. A loop is a task, though, that waits for
two things at once, for the next tick of its timer and for its cancellation, and that has its turn
whenever one of them has happened. `Session.Course` tells what may come of that in a session with
one loop: which of the two the task attends to when both have happened is left open.
-/

namespace Allotment

namespace Session

variable {ε : Type}

/-- The task of a loop is there, and the first tick of its timer is due. -/
def launch (s : Session ε) (interval : Nat) : Session ε :=
  { s with loop := some ⟨max interval 1, s.now, Nat.le_max_right interval 1⟩ }

/-- The task makes a query. The next tick of its timer is due one period later. -/
def turn (s : Session ε) (l : Loop) : Session ε :=
  { s.sampleInLoop with loop := some { l with due := s.now + l.period } }

/-- There is nothing to do for a task now, and no tick of its timer before so many milliseconds have
passed. -/
def Idle (s : Session ε) (cancelled : Bool) (ms : Nat) : Prop :=
  ∀ l, s.loop = some l → cancelled = false ∧ s.now < l.due ∧ s.now + ms ≤ l.due

/-- Time passes while the task has its turns, until there is nothing to do for it any more. -/
inductive Course (cancelled : Bool) : Session ε → Nat → Session ε → Prop
  | queries {s t : Session ε} {l : Loop} {ms : Nat} (hloop : s.loop = some l)
    (hdue : l.due ≤ s.now) (h : Course cancelled (s.turn l) ms t) : Course cancelled s ms t
  | ends {s t : Session ε} {l : Loop} {ms : Nat} (hcancelled : cancelled = true)
    (hloop : s.loop = some l) (h : Course cancelled { s with loop := none } ms t) :
    Course cancelled s ms t
  | waits {s t : Session ε} {d ms : Nat} (hidle : s.Idle cancelled d)
    (h : Course cancelled { s with now := s.now + d } ms t) : Course cancelled s (d + ms) t
  | rests {s : Session ε} (hidle : s.Idle cancelled 0) : Course cancelled s 0 s

/-- Time passes in several parts. Even if there is none, the task has its turns. -/
def Passing (cancelled : Bool) (s : Session ε) : List Nat → Session ε → Prop
  | [], t => s.Course cancelled 0 t
  | ms :: advances, t => ∃ u, s.Course cancelled ms u ∧ u.Passing cancelled advances t

end Session

end Allotment
