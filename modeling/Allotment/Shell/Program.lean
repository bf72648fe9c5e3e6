import Allotment.Shell.Program.Launch
import Allotment.Shell.Program.Script

/-!
# Programs

What a process does that has become another program: a tool, a shell of its own, or a program that
runs another one.
-/

namespace Allotment.Shell

open Text (Octets)

namespace Program

/-- The present process goes on as the program with the given name. What the program is called
decides what it does; `depth` bounds how often one runs another. -/
def run (text : RunText) : (depth : Nat) → (lead : Octets → Octets) → (name : Octets) →
    List Octets → Exec Unit
  | 0, _, _, _ => throw .endless
  | depth + 1, lead, name, args => do
    let short := Tool.Path.last name
    if (Builtin.path? (← Exec.env) name).isNone then
      let d ← Exec.disk
      let isDenied : Bool := '/' ∈ name && (d.isDirectory name || d.isFile name)
      tell (lead name)
        (if isDenied then "Permission denied" else "No such file or directory").toList
      finish (if isDenied then 126 else 127)
    else if let some t := Tool.named? short then
      finish (← useTool t name args (tell name))
    else
      let m : Launcher := {
        run := run text depth
        child := fun limits lead args => do
          let within (e : Environment) : Environment := { e with limits := limits ++ e.limits }
          let (_, ended) ← Exec.process text within do
            match args with
            | [] => finish 0
            | name :: args => run text depth lead name args
          return ended }
      match String.ofList short with
      | "env" => m.withVariables name args
      | "nice" => m.withPriority name args
      | "nohup" => m.plain "" (longLead name) name args
      | "setsid" => m.plain "" (longLead name) name args
      | "stdbuf" => m.plain "ioe" (longLead name) name args
      | "timeout" => m.withLimit name args
      | "xargs" => m.withInput name args
      | "bash" => shell text Tool.plainTable name args
      | _ => shell text Tool.shellTable name args

end Program

end Allotment.Shell
