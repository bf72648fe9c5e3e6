import Allotment.Command.Run
import Allotment.Settings.Basic
import Allotment.Watch.Session

/-!
# Command sources

A `Source` is a program with its arguments and a limit on the time of a query. What programs there
are and what they do is not known here: a `Host` tells what comes of starting one.
-/

namespace Allotment.Command

/-- What comes of starting a program with arguments. -/
abbrev Host := String → List String → Except SystemFault Run

/-- Where the watch over devices gets its listings. -/
structure Source where
  program : String
  args : List String
  /-- How many milliseconds a query may take. -/
  limit : Nat

namespace Source

def ofSettings (m : Settings.Monitor) : Source :=
  ⟨m.command, m.args, m.queryTimeoutMs⟩

/-- The lines that the program writes, or what is told about the failure. -/
def query (x : Source) (host : Host) : Except Report (List String) :=
  (Command.query x.limit (host x.program x.args)).mapError (·.report x.program)

/-- The answers to all queries, which need not find the same host. -/
def script (x : Source) (hosts : Nat → Host) : Script Report :=
  fun n => x.query (hosts n)

end Source

end Allotment.Command
