import Allotment.Tool.Base64
import Allotment.Tool.Blocks
import Allotment.Tool.Columns
import Allotment.Tool.Compare
import Allotment.Tool.Count
import Allotment.Tool.Dump
import Allotment.Tool.Echo
import Allotment.Tool.Edit
import Allotment.Tool.Excerpt
import Allotment.Tool.Expression
import Allotment.Tool.Files
import Allotment.Tool.Identity
import Allotment.Tool.Pause
import Allotment.Tool.Printf
import Allotment.Tool.Search
import Allotment.Tool.Sequence
import Allotment.Tool.Test
import Allotment.Tool.Translate

/-!
# The tools by name

The tools that can be started as programs, and those that the shell has itself.
-/

namespace Allotment.Tool

open Text (Octets)

def ending (status : Nat) : Tool := fun _ => { status }

/-- Prints the values of variables, or all variables with their values. -/
def printVariables : Tool := fun s =>
  let values := s.args.map fun a => s.bindings.lookup a
  if s.args.isEmpty then
    { output := s.bindings.flatMap fun (name, value) => name ++ '=' :: value ++ ['\n'] }
  else
    { output := (values.filterMap id).flatMap (· ++ ['\n'])
      status := if values.all Option.isSome then 0 else 1 }

def table : List (String × Tool) :=
  [("[", Test.tool true), ("base64", Base64.tool), ("basename", Files.basename),
    ("cat", Cat.tool), ("chmod", Files.setMode), ("cmp", Compare.octets),
    ("comm", Compare.lines), ("cp", Files.copy false), ("cut", Cut.tool),
    ("date", Identity.date), ("dd", Blocks.tool), ("dirname", Files.dirname),
    ("echo", Echo.command),
    ("egrep", Search.tool true false), ("expand", Expand.tool), ("expr", Expression.tool),
    ("factor", Factor.tool), ("false", ending 1), ("fgrep", Search.tool false true),
    ("fold", Fold.tool), ("grep", Search.tool false false), ("head", Excerpt.head),
    ("id", Identity.id), ("ls", Files.list), ("mkdir", Files.makeDirectory),
    ("mv", Files.copy true), ("nl", Number.tool), ("od", Dump.tool), ("paste", Paste.tool),
    ("printenv", printVariables), ("printf", Formatter.command.tool), ("pwd", Identity.directory),
    ("realpath", Identity.realPath), ("rev", rev), ("rm", Files.remove),
    ("rmdir", Files.removeDirectory), ("sed", Edit.tool), ("seq", Sequence.tool),
    ("sleep", Pause.tool), ("sort", Sorting.tool), ("sync", ending 0), ("tac", tac),
    ("tail", Excerpt.tail), ("tee", tee), ("test", Test.tool true), ("touch", Files.touch),
    ("tr", Translate.tool), ("true", ending 0), ("tty", Identity.terminal),
    ("uname", Identity.system), ("uniq", Uniq.tool), ("wc", Count.tool),
    ("which", Identity.which), ("whoami", Identity.user), ("yes", yes)]

def named? (name : Octets) : Option Tool :=
  (table.find? fun t => t.1.toList = name).map (·.2)

def shellTable : List (String × Tool) :=
  [("[", Test.tool false), ("echo", Echo.shell), ("false", ending 1),
    ("printf", Formatter.shell.tool), ("test", Test.tool false), ("true", ending 0)]

/-- The same where `echo` and `printf` are those that can be started as programs. -/
def plainTable : List (String × Tool) :=
  [("[", Test.tool false), ("echo", Echo.command), ("false", ending 1),
    ("printf", Formatter.command.tool), ("test", Test.tool false), ("true", ending 0)]

end Allotment.Tool
