import Allotment.Text.Radix
import Allotment.Tool.Disk

/-!
# Tools

A tool is a command that works by itself: it gets arguments, its input and some files, and it
writes output and messages and ends with a status. What it does is a function of what it gets.
-/

namespace Allotment

open Text (Octets)

namespace Tool

/-- What a tool gets. -/
structure Setting where
  /-- The name by which the tool was called. -/
  name : Octets
  args : List Octets
  input : Octets := []
  /-- The input is a file and not what another command writes. -/
  inputIsFile : Bool := false
  disk : Disk := {}
  /-- Whether there is a program at a path. -/
  isProgram : Octets → Bool := fun _ => false
  bindings : List (Octets × Octets) := []

/-- For how much of its input a tool waits. -/
inductive Wait where
  | nothing
  /-- For so many octets, or to the end if there are fewer. -/
  | octets (n : Nat)
  | all
deriving DecidableEq, Repr

/-- What a tool does. -/
structure Outcome where
  output : Octets := []
  /-- What is told besides, one after another, without the name of the tool. -/
  messages : List Octets := []
  status : Nat := 0
  waits : Wait := .nothing
  /-- How many milliseconds it pauses. -/
  pause : Nat := 0
  endless : Bool := false
  /-- Its output follows its input without delay. -/
  isPrompt : Bool := false
  /-- The files as it leaves them, if it writes any. -/
  written : Option Disk := none

def failed (status : Nat) (message : String) : Outcome :=
  { messages := [Octets.ofString message], status }

end Tool

abbrev Tool := Tool.Setting → Tool.Outcome

namespace Tool

/-- What is read from operands. -/
structure Sources where
  /-- The operands that could be read, with their contents. -/
  contents : List (Octets × Octets)
  messages : List Octets
  /-- Whether the input is among them. -/
  usesInput : Bool
  /-- Whether one of them has no end. -/
  isEndless : Bool := false

def Unreadable.message (e : Unreadable) (path : Octets) : Octets :=
  path ++ (": " ++ e.text).toList

/-- The same in the words of tools that tell what they were about to do. -/
def Unreadable.longMessage (e : Unreadable) (path : Octets) : Octets :=
  match e with
  | missing => "cannot open '".toList ++ path ++ ("' for reading: " ++ e.text).toList
  | directory => "error reading '".toList ++ path ++ ("': " ++ e.text).toList

def isInput (o : Octets) : Bool :=
  o = ['-'] || o = "/dev/stdin".toList

/-- The contents of the files that operands name. A hyphen names the input, and so do no
operands. -/
def Setting.sources (s : Setting) (operands : List Octets)
    (message : Unreadable → Octets → Octets := Unreadable.message) : Sources :=
  let operands := if operands.isEmpty then [['-']] else operands
  let read := operands.map fun o =>
    (o, if isInput o then Except.ok s.input else s.disk.read o)
  { contents := read.filterMap fun (o, r) =>
      match r with
      | .ok c => some (o, c)
      | .error _ => none
    messages := read.filterMap fun (o, r) =>
      match r with
      | .ok _ => none
      | .error e => some (message e o)
    usesInput := operands.any isInput
    isEndless := operands.any s.disk.isEndless }

def Sources.text (s : Sources) : Octets :=
  s.contents.flatMap (·.2)

/-- The outcome of a tool that makes its output from its sources while it reads them. -/
def Sources.outcome (s : Sources) (output : Octets) : Outcome where
  output := output
  messages := s.messages
  status := if s.messages.isEmpty then 0 else 1
  waits := if s.usesInput then .all else .nothing
  isPrompt := true
  endless := s.isEndless

abbrev Attempt := Except Outcome Outcome

def Attempt.settle : Attempt → Outcome
  | .ok o => o
  | .error o => o

def Setting.misused (s : Setting) (status : Nat) (message : Octets) : Outcome :=
  { messages := [message ++ "\nTry '".toList ++ s.name ++
      " --help' for more information.".toList]
    status }

/-! ### Options -/

/-- The options that a tool knows, by their letters. -/
structure Known where
  flags : String := ""
  valued : String := ""
  /-- The words that stand for letters. -/
  words : List (String × Char) := []
  /-- Options may stand after operands. -/
  anywhere : Bool := true
  /-- A negative number is no option. -/
  numbers : Bool := false
  /-- The status if the options are wrong. -/
  misuse : Nat := 1

/-- Options of one letter and what is left of the arguments. -/
structure Options where
  /-- The letters with their values; a letter without value has the empty one. -/
  given : List (Char × Octets) := []
  operands : List Octets := []

namespace Options

def has (o : Options) (c : Char) : Bool :=
  o.given.any fun g => g.1 == c

def value? (o : Options) (c : Char) : Option Octets :=
  (o.given.reverse.find? fun g => g.1 == c).map (·.2)

def last? (o : Options) (cs : List Char) : Option (Char × Octets) :=
  o.given.reverse.find? fun g => g.1 ∈ cs

def add (given : List (Char × Octets)) (o : Options) : Options :=
  { o with given := given ++ o.given }

end Options

namespace Known

/-- The options in one argument after its hyphen. An option that takes a value has the rest of the
argument, or the next one if there is no rest. -/
def cluster (k : Known) : Octets → List Octets →
    Except Octets (List (Char × Octets) × List Octets)
  | [], args => .ok ([], args)
  | c :: cs, args =>
    if k.valued.contains c then
      match cs, args with
      | _ :: _, _ => .ok ([(c, cs)], args)
      | [], a :: args => .ok ([(c, a)], args)
      | [], [] => .error ("option requires an argument -- '".toList ++ [c, '\''])
    else if k.flags.contains c then do
      let (given, args) ← cluster k cs args
      return ((c, []) :: given, args)
    else .error ("invalid option -- '".toList ++ [c, '\''])

def word (k : Known) (w : Octets) (args : List Octets) :
    Except Octets ((Char × Octets) × List Octets) :=
  let name := w.takeWhile (· != '=')
  match k.words.find? (·.1.toList = name), w.drop name.length with
  | none, _ => .error ("unrecognized option '--".toList ++ w ++ ['\''])
  | some (_, c), '=' :: value =>
    if k.valued.contains c then .ok ((c, value), args)
    else .error ("option '--".toList ++ name ++ "' doesn't allow an argument".toList)
  | some (_, c), _ =>
    if k.valued.contains c then
      match args with
      | a :: args => .ok ((c, a), args)
      | [] => .error ("option '--".toList ++ name ++ "' requires an argument".toList)
    else .ok ((c, []), args)

/-- Splits arguments into options and operands. Two hyphens end the options. -/
def split (k : Known) : (n : Nat) → List Octets → Except Octets Options
  | 0, args => .ok { operands := args }
  | _, [] => .ok {}
  | n + 1, a :: args =>
    match a with
    | ['-', '-'] => .ok { operands := args }
    | '-' :: '-' :: w => do
      let (given, args) ← k.word w args
      return (← split k n args).add [given]
    | '-' :: c :: cs => do
      if k.numbers ∧ (c.isDigit ∨ c = '.') then return { operands := a :: args }
      let (given, args) ← k.cluster (c :: cs) args
      return (← split k n args).add given
    | _ =>
      if k.anywhere then do
        let o ← split k n args
        return { o with operands := a :: o.operands }
      else .ok { operands := a :: args }

end Known

def Setting.options (s : Setting) (k : Known) : Except Outcome Options :=
  (k.split (s.args.length + 1) s.args).mapError (s.misused k.misuse)

def natural? (cs : Octets) : Option Nat :=
  if cs.isEmpty ∨ ¬cs.all Char.isDigit then none else some (Nat.ofDigitChars 10 cs 0)

def quoted (cs : Octets) : Octets :=
  Octets.ofString "‘" ++ cs.flatMap shown ++ Octets.ofString "’"
where
  shown (c : Char) : Octets :=
    match c with
    | '\\' => ['\\', '\\']
    | '\n' => ['\\', 'n']
    | '\t' => ['\\', 't']
    | '\r' => ['\\', 'r']
    | c => [c]

def integer? : Octets → Option Int
  | '-' :: cs => (natural? cs).map fun n => -(n : Int)
  | '+' :: cs => (natural? cs).map fun n => (n : Int)
  | cs => (natural? cs).map fun n => (n : Int)

/-- Blanks before a text so that it has at least the given length. -/
def padLeft (width : Nat) (cs : Octets) : Octets :=
  List.replicate (width - cs.length) ' ' ++ cs

/-- Blanks after a text so that it has at least the given length. -/
def padRight (width : Nat) (cs : Octets) : Octets :=
  cs ++ List.replicate (width - cs.length) ' '

end Tool

end Allotment
