import Allotment.Report
import Allotment.Signal
import Allotment.SystemFault
import Allotment.Text.Lines
import Allotment.Text.Utf8

/-!
# Queries by command

A status listing can be the output of a command. A `Command.Run` is what a command did: the bytes
that it wrote and when, how it ended and when. `Command.query` reads the lines off a run, with a
limit on time. What goes wrong first is what is told: a line that is not UTF-8 as soon as it is
complete, then the end of the time, then a bad ending of the command.
-/

namespace Allotment.Command

inductive Ending where
  | exited (status : Nat)
  | killed (signal : Nat)
deriving DecidableEq, Repr

def Ending.text : Ending → String
  | exited status => "exit status: " ++ toString status
  | killed signal =>
    "signal: " ++ toString signal ++
      match Signal.name? signal with
      | some name => " (SIG" ++ name ++ ")"
      | none => ""

/-- What a command did. All times are milliseconds from the start; what has no time never comes. -/
structure Run where
  /-- The bytes of the output, each with the time at which it was written. -/
  output : List (UInt8 × Nat)
  /-- When no process is left that could write more. -/
  closes : Option Nat
  ending : Ending
  ends : Option Nat

inductive Failure where
  | notStarted (f : SystemFault)
  | unreadable (f : Text.Utf8.Fault)
  | badEnding (e : Ending)
  /-- The time limit in milliseconds was passed. -/
  | tooLong (ms : Nat)
deriving DecidableEq

/-- A time in the greatest unit of which there is one, seconds with their fraction. -/
def durationText (ms : Nat) : String :=
  if ms = 0 then "0ns"
  else if ms < 1000 then toString ms ++ "ms"
  else
    let thousandths := Nat.toDigits 10 (1000 + ms % 1000)
    let fraction := ((thousandths.drop 1).reverse.dropWhile (· == '0')).reverse
    toString (ms / 1000) ++
      (if fraction.isEmpty then "" else String.ofList ('.' :: fraction)) ++ "s"

/-- What is told about a failed query by the given program. -/
def Failure.report (program : String) (f : Failure) : Report :=
  ⟨.sampling,
    match f with
    | notStarted f => "Failed to spawn " ++ program ++ ": " ++ f.text
    | unreadable f => "Failed to read output of " ++ program ++ ": " ++ f.text
    | badEnding e => program ++ " exited with " ++ e.text
    | tooLong ms => program ++ " did not finish within " ++ durationText ms⟩

/-- What comes at the given time comes before the time limit. -/
def isInTime (limit : Nat) (time : Option Nat) : Bool :=
  time.any (· < limit)

/-- Bytes of the output up to the end of a line, and when they were complete. A last line without
an end is complete when the output is closed. -/
def Run.rawLines (r : Run) : List (List UInt8 × Option Nat) :=
  (Text.piecesAfter (fun b : UInt8 × Nat => b.1 == 10) r.output).map fun piece =>
    let complete := match piece.getLast? with
      | some (10, time) => some time
      | _ => r.closes
    (piece.map (·.1), complete)

/-- Reads lines until the time limit; what is complete later does not count. -/
def readLines (limit : Nat) : List (List UInt8 × Option Nat) → Except Failure (List String)
  | [] => .ok []
  | (bytes, complete) :: more => do
    unless isInTime limit complete do throw (.tooLong limit)
    match Text.Utf8.decode bytes with
    | .error f => throw (.unreadable f)
    | .ok s =>
      let rest ← readLines limit more
      return String.ofList (Text.withoutLineEnd s.toList) :: rest

/-- The lines that a command wrote, if it ended well and in time. -/
def query (limit : Nat) (start : Except SystemFault Run) : Except Failure (List String) := do
  let run ← start.mapError Failure.notStarted
  let lines ← readLines limit run.rawLines
  unless isInTime limit run.closes ∧ isInTime limit run.ends do throw (.tooLong limit)
  match run.ending with
  | .exited 0 => return lines
  | e => throw (.badEnding e)

end Allotment.Command
