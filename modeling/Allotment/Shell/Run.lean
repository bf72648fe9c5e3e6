import Allotment.Shell.Program

/-!
# Running commands

What each kind of command does. Commands are nested in each other without a bound that could be read
off them, for a function may call itself; so `run` takes the depth up to which it goes. Loops have a
bound of their own: one that is reached by no script that ends counts as going on for ever.
-/

namespace Allotment.Shell

open Text (Octets)

namespace Run

def wordDepth : Nat := 200

def turns : Nat := 30000

def greatestCalls : Nat := 1000

/-- How commands that are part of others are run, and texts that hold commands. -/
structure Inner where
  command : Command → Exec Unit
  text : Octets → Exec Unit

namespace Inner

variable (m : Inner)

def outputOf (body : List Command) : Exec Octets :=
  Exec.capture m.text (body.forM m.command)

/-- A failure ends the script if it is to do so and nobody looks at it. -/
def checked (x : Exec Unit) : Exec Unit := do
  x
  let e ← Exec.env
  if e.status ≠ 0 ∧ e.options.contains 'e' ∧ ¬e.isTested then throw (.exited e.status)

def seeToSignals : Exec Unit := do
  Exec.heed (some (← Exec.env).now)
  let e ← Exec.env
  unless e.pending.isEmpty do
    Exec.change fun e => { e with pending := [] }
    e.pending.forM fun n => do
      match e.traps.lookup n with
      | none => return ()
      | some action =>
        m.text action
        Exec.setStatus e.status

/-! ### Simple commands -/

def withRedirections (rs : List Redirection) (isSpecial : Bool) (x : Exec Unit) : Exec Unit := do
  Exec.thenChange (fun before after => { after with descriptors := before.descriptors }) do
    match ← Redirection.applyAll m.outputOf wordDepth rs with
    | none => x
    | some message =>
      Exec.complain message
      Exec.setStatus 2
      if isSpecial then throw (.exited 2)

def assignAll (assignments : List (Octets × Word)) (isExported : Bool) : Exec Unit :=
  assignments.forM fun (name, word) => do
    Exec.assign name (← Expansion.textOf m.outputOf wordDepth word)
    if isExported then
      Exec.change fun e =>
        e.setSlot name ((e.bindings.lookup name).map fun s => { s with isExported := true })

def withAssignments (assignments : List (Octets × Word)) (x : Exec Unit) : Exec Unit :=
  Exec.thenChange (fun before after =>
      assignments.foldl (fun e a => e.setSlot a.1 (before.bindings.lookup a.1)) after) do
    m.assignAll assignments true
    x

/-- Runs commands up to one that goes back to where they were called. -/
def untilReturn (x : Exec Unit) : Exec Unit := do
  match ← Exec.observe x with
  | .error .returned => return ()
  | r => MonadExcept.ofExcept r

def callFunction (body : Command) (args : List Octets) : Exec Unit :=
  Exec.thenChange (fun before after =>
      let frame := after.locals.headD []
      { frame.foldl (fun e v => e.setSlot v.1 v.2) after with
        parameters := before.parameters, loops := before.loops, locals := before.locals }) do
    if greatestCalls ≤ (← Exec.env).locals.length then
      Exec.fail "Maximum function recursion depth (1000) reached".toList
    Exec.change fun e => { e with parameters := args, loops := 0, locals := [] :: e.locals }
    untilReturn (m.command body)

def startProgram (name : Octets) (args : List Octets) : Exec Unit := do
  let (_, ended) ← Exec.process m.text id (Program.run m.text wordDepth id name args)
  Exec.await ended

def refuse (lead name : Octets) : Exec Nat := do
  let d ← Exec.disk
  let isDenied : Bool := '/' ∈ name && (d.isDirectory name || d.isFile name)
  let why := if isDenied ∨ name.isEmpty then ": Permission denied" else ": not found"
  Exec.complain (lead ++ name ++ why.toList)
  return if isDenied then 126 else 127

/-- Puts another program in the place of the shell, if there is a name of one. -/
def exec (args : List Octets) : Exec Nat := do
  match args with
  | [] => return 0
  | name :: args =>
    Exec.change fun e => { e with traps := e.traps.filter (·.2.isEmpty) }
    if (Builtin.path? (← Exec.env) name).isSome then
      Program.run m.text wordDepth id name args
      return (← Exec.env).status
    else
      let status ← refuse "exec: ".toList name
      Exec.setStatus status
      throw (.exited status)

def readFile (args : List Octets) : Exec Nat := do
  match args with
  | [] => return 0
  | path :: _ =>
    match (← Exec.disk).read path with
    | .ok cs =>
      Exec.setStatus 0
      untilReturn (m.text cs)
      return (← Exec.env).status
    | .error _ =>
      if '/' ∈ path then
        Builtin.fail "." ("cannot open ".toList ++ path ++ ": No such file".toList)
      else Builtin.fail "." (path ++ ": not found".toList)

/-- Runs the commands of the shell that run others, or one from the table. `again` runs a command
without regard to functions. -/
def builtin (again : List Octets → Exec Unit) (name : String) (args : List Octets) : Exec Nat := do
  match name with
  | "eval" =>
    let text := [' '].intercalate args
    Exec.setStatus 0
    m.text text
    return (← Exec.env).status
  | "exec" => m.exec args
  | "." => m.readFile args
  | "command" =>
    match args with
    | ['-', 'v'] :: names => Builtin.type false (names.take 1)
    | ['-', 'V'] :: names => Builtin.type true (names.take 1)
    | ['-', 'p'] :: args => again args; return (← Exec.env).status
    | ['-', '-'] :: args => again args; return (← Exec.env).status
    | args => again args; return (← Exec.env).status
  | _ =>
    match Builtin.table.lookup name with
    | some b => b args
    | none => return 0

def ownTool (t : Tool) (name : Octets) (args : List Octets) : Exec Unit := do
  let tell (message : Octets) : Exec Unit := do
    let e ← Exec.env
    let isBroken := message = "write error: Bad file descriptor".toList
    let message := if isBroken then name ++ ": I/O error".toList else message
    let _ ← Exec.write 2 (e.name ++ ": ".toList ++ Octets.ofNat e.line ++ ": ".toList ++ name ++
      ": ".toList ++ message ++ ['\n'])
  Exec.setStatus (← Program.useTool t name args tell)

/-- Runs the command with the given name; functions count only if `withFunctions` holds. A program
takes the place of the process if `replaces` holds. -/
def call (withFunctions replaces : Bool) : (n : Nat) → (assignments : List (Octets × Word)) →
    List Redirection → List Octets → Exec Unit
  | 0, _, _, _ => return ()
  | _, _, _, [] => return ()
  | n + 1, assignments, rs, name :: args => do
    let e ← Exec.env
    let e := if withFunctions then e else { e with functions := [] }
    let again (args : List Octets) : Exec Unit := call false false n [] [] args
    match Builtin.meaning e name with
    | .special =>
      if name = "exec".toList then
        match ← Redirection.applyAll m.outputOf wordDepth rs with
        | some message =>
          Exec.complain message
          Exec.setStatus 2
          throw (.exited 2)
        | none =>
          m.assignAll assignments (!args.isEmpty)
          Exec.setStatus (← m.builtin again "exec" args)
      else
        m.withRedirections rs true do
          m.assignAll assignments false
          Exec.setStatus (← m.builtin again (String.ofList name) args)
    | .function body =>
      m.withRedirections rs false (m.withAssignments assignments (m.callFunction body args))
    | .tool t =>
      m.withRedirections rs false (m.withAssignments assignments (ownTool t name args))
    | .builtin =>
      m.withRedirections rs false do
        m.withAssignments assignments do
          Exec.setStatus (← m.builtin again (String.ofList name) args)
    | .program _ =>
      m.withRedirections rs false do
        m.withAssignments assignments do
          if replaces ∧ e.traps.all (·.2.isEmpty) then
            Program.run m.text wordDepth id name args
            throw (.exited (← Exec.env).status)
          else m.startProgram name args
    | _ =>
      m.withRedirections rs false do Exec.setStatus (← refuse [] name)

def trace (words : List Octets) : Exec Unit := do
  let e ← Exec.env
  if e.options.contains 'x' ∧ ¬words.isEmpty then
    let lead := (e.value? "PS4".toList).getD []
    let _ ← Exec.write 2 (lead ++ [' '].intercalate words ++ ['\n'])

def nameless (assignments : List (Octets × Word)) (rs : List Redirection) : Exec Unit := do
  m.withRedirections rs false do
    m.assignAll assignments false
    let e ← Exec.env
    trace (assignments.map fun (v, _) => v ++ '=' :: (e.value? v).getD [])
    Exec.setStatus ((← Exec.env).captured.getD 0)

def simple (replaces : Bool) (line : Nat) (assignments : List (Octets × Word)) (words : List Word)
    (rs : List Redirection) : Exec Unit := do
  Exec.change fun e => { e with line, captured := none }
  let fields ← words.mapM (Expansion.fieldsOf m.outputOf wordDepth)
  match fields.flatten with
  | [] => m.nameless assignments rs
  | args =>
    trace args
    m.call true replaces 10 assignments rs args

/-! ### Compound commands -/

def holds (condition : List Command) : Exec Bool := do
  Exec.tested (condition.forM m.command)
  return (← Exec.env).status = 0

/-- Takes turns until one says that it was the last. Each turn gets the status of the one before and
gives its own. -/
def takeTurns (turn : Nat → Exec (Bool × Nat)) : (n : Nat) → (status : Nat) → Exec Unit
  | 0, _ => throw .endless
  | n + 1, status => do
    let (goesOn, status) ← turn status
    if goesOn then takeTurns turn n status else Exec.setStatus status

/-- Runs the body of a loop. The result tells whether the loop goes on. -/
def turnOf (body : Exec Unit) : Exec Bool := do
  match ← Exec.observe body with
  | .error (.leave n isAgain) =>
    if 1 < n then throw (.leave (n - 1) isAgain)
    return isAgain
  | r =>
    MonadExcept.ofExcept r
    return true

def inLoop (x : Exec Unit) : Exec Unit :=
  Exec.thenChange (fun before after => { after with loops := before.loops }) do
    Exec.change fun e => { e with loops := e.loops + 1 }
    x

def loop (untilTrue : Bool) (condition body : List Command) : Exec Unit :=
  inLoop do
    let turn (status : Nat) : Exec (Bool × Nat) := do
      match ← Exec.observe (m.holds condition) with
      | .error (.leave n isAgain) =>
        if 1 < n then throw (.leave (n - 1) isAgain)
        return (isAgain, status)
      | .error i => throw i
      | .ok h =>
        if h = untilTrue then return (false, status)
        let goesOn ← turnOf (body.forM m.command)
        return (goesOn, (← Exec.env).status)
    match ← Exec.observe (takeTurns turn turns 0) with
    | .error .endless =>
      Exec.heed none
      m.seeToSignals
      throw .endless
    | r => MonadExcept.ofExcept r

def each (name : Octets) (words : Option (List Word)) (body : List Command) : Exec Unit := do
  let values ← match words with
    | none => pure (← Exec.env).parameters
    | some ws => do pure (← ws.mapM (Expansion.fieldsOf m.outputOf wordDepth)).flatten
  if values.isEmpty then Exec.setStatus 0
  inLoop (go values)
where
  /-- Goes on with the values that are left. -/
  go : List Octets → Exec Unit
    | [] => return ()
    | v :: vs => do
      Exec.assign name v
      if ← turnOf (body.forM m.command) then go vs

def choose (word : Word) (arms : List (List Word × List Command)) : Exec Unit := do
  let cs ← Expansion.textOf m.outputOf wordDepth word
  go cs arms
where
  /-- Goes on with the arms that are left. -/
  go (cs : Octets) : List (List Word × List Command) → Exec Unit
    | [] => Exec.setStatus 0
    | (patterns, body) :: more => do
      let found ← patterns.anyM fun p => do
        return Glob.fits (Glob.ofPattern (← Expansion.symbolsOf m.outputOf wordDepth p)) cs
      if found then
        if body.isEmpty then Exec.setStatus 0
        body.forM m.command
      else go cs more

def decide : List (List Command × List Command) → (otherwise : List Command) → Exec Unit
  | [], otherwise => do
    if otherwise.isEmpty then Exec.setStatus 0
    otherwise.forM m.command
  | (condition, body) :: more, otherwise => do
    if ← m.holds condition then body.forM m.command else decide more otherwise

def step (c : Command) : Exec Unit := do
  if (← Exec.env).options.contains 'n' then return ()
  match c with
  | .simple line assignments words rs =>
    checked (m.simple false line assignments words rs)
    m.seeToSignals
  | .last c =>
    match c with
    | .simple line assignments words rs =>
      checked (m.simple true line assignments words rs)
      m.seeToSignals
    | c => m.command c
  | .pipeline negated cs =>
    let runAll : Exec Unit :=
      match cs with
      | [c] => m.command c
      | _ => Exec.pipeline m.text m.command cs
    if negated then
      Exec.tested runAll
      Exec.setStatus (if (← Exec.env).status = 0 then 1 else 0)
    else checked runAll
    m.seeToSignals
  | .andThen left right =>
    Exec.tested (m.command left)
    if (← Exec.env).status = 0 then m.command right
  | .orElse left right =>
    Exec.tested (m.command left)
    if (← Exec.env).status ≠ 0 then m.command right
  | .background c => Exec.beside m.text m.command c
  | .group body => body.forM m.command
  | .subshell body =>
    checked do
      let (_, ended) ← Exec.process m.text id ((Command.untilLast body).forM m.command)
      Exec.await ended
    m.seeToSignals
  | .redirected c rs => m.withRedirections rs false (m.command c)
  | .conditional branches otherwise => m.decide branches otherwise
  | .loop untilTrue condition body => m.loop untilTrue condition body
  | .each name words body => m.each name words body
  | .choice word arms => m.choose word arms
  | .function name body =>
    Exec.change fun e => { e with functions := update name body e.functions, status := 0 }

end Inner

/-! ### Texts -/

def lines (command : Command → Exec Unit) : (n : Nat) → Cursor → Exec Unit
  | 0, _ => return ()
  | n + 1, c => do
    let aliases := (← Exec.env).aliases
    match { c with aliases }.next? with
    | none => Exec.fail "Syntax error: end of file unexpected".toList
    | some (cs, c) =>
      Exec.change fun e => { e with documents := c.documents ++ e.documents }
      cs.forM command
      unless c.rest.isEmpty do lines command n { c with documents := [] }

def textWith (command : Command → Exec Unit) (cs : Octets) : Exec Unit := do
  let number ← Exec.fresh
  lines command (cs.length + 1) (Cursor.start cs (number * 1000))

def command : (depth : Nat) → Command → Exec Unit
  | 0, _ => throw (.killed 11)
  | depth + 1, c =>
    (Inner.mk (command depth) (textWith (command depth))).step c

def depth : Nat := 20000

def text (cs : Octets) : Exec Unit :=
  textWith (command depth) cs

end Run

end Allotment.Shell
