/-!
# Signals

Signals by number and by name, and what each one does to a process that has not said otherwise.
-/

namespace Allotment.Signal

def names : List String :=
  ["HUP", "INT", "QUIT", "ILL", "TRAP", "ABRT", "BUS", "FPE", "KILL", "USR1", "SEGV", "USR2",
    "PIPE", "ALRM", "TERM", "STKFLT", "CHLD", "CONT", "STOP", "TSTP", "TTIN", "TTOU", "URG",
    "XCPU", "XFSZ", "VTALRM", "PROF", "WINCH", "IO", "PWR", "SYS"]

def greatest : Nat := 64

/-- What scripts call a signal. The signals from 34 on are named by their distance from the first or
the last of them, whichever is nearer, and a few have no name but their number. -/
def label (n : Nat) : String :=
  if 34 ≤ n ∧ n ≤ greatest then
    if n < 50 then (if n = 34 then "RTMIN" else "RTMIN+" ++ toString (n - 34))
    else if n = greatest then "RTMAX" else "RTMAX-" ++ toString (greatest - n)
  else if n = 16 then toString n
  else (names[n - 1]?).elim (toString n) fun name => if n = 0 then toString n else name

def name? (n : Nat) : Option String :=
  if n = 0 then none else names[n - 1]?

/-- What is told about a process that the signal has ended, for the signals from number one on. -/
def descriptions : List String :=
  ["Hangup", "Interrupt", "Quit", "Illegal instruction", "Trace/breakpoint trap", "Aborted",
    "Bus error", "Floating point exception", "Killed", "User defined signal 1",
    "Segmentation fault", "User defined signal 2", "Broken pipe", "Alarm clock", "Terminated",
    "Stack fault", "Child exited", "Continued", "Stopped (signal)", "Stopped",
    "Stopped (tty input)", "Stopped (tty output)", "Urgent I/O condition",
    "CPU time limit exceeded", "File size limit exceeded", "Virtual timer expired",
    "Profiling timer expired", "Window changed", "I/O possible", "Power failure",
    "Bad system call"]

@[inherit_doc descriptions]
def description (n : Nat) : String :=
  (descriptions[n - 1]?).getD ("Real-time signal " ++ toString (n - 34))

/-- The signal that scripts call by the given name, in letters of either case. -/
def ofLabel? (name : String) : Option Nat :=
  (List.range (greatest + 1)).find? fun n => 0 < n && label n == name.map Char.toUpper

/-- What a signal does to a process. -/
inductive Action where
  | ends
  | stops
  | nothing
deriving DecidableEq, Repr

/-- What a signal does to a process that has not said otherwise. There is no terminal from which a
stopped process could be continued, so the signals by which a terminal stops one do nothing. -/
def action (n : Nat) : Action :=
  if n ∈ [0, 17, 18, 20, 21, 22, 23, 28] then .nothing
  else if n = 19 then .stops
  else .ends

/-- A process cannot say otherwise about these signals. -/
def isAbsolute (n : Nat) : Bool :=
  n == 9 || n == 19

theorem name?_eq_none_of_lt {n : Nat} (h : 31 < n) : name? n = none := by
  have : names.length = 31 := rfl
  simp only [name?]
  split
  · rfl
  · exact List.getElem?_eq_none (by omega)

end Allotment.Signal
