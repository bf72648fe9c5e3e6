import Allotment.Text.Octets

/-!
# Scripts

What a shell script says: commands made of words, and words made of parts that are expanded when a
command is run.
-/

namespace Allotment.Shell

open Text (Octets)

/-- What is done about a parameter besides putting in its value. -/
inductive Modifier where
  | orElse
  | assign
  | andThen
  | require
  /-- Less a beginning or an end that matches a pattern. -/
  | trim (atEnd longest : Bool)
deriving DecidableEq, Repr

inductive Redirection.Kind where
  | input
  | output
  /-- Output, even if files that are there are to be spared. -/
  | overwrite
  | append
  | both
  | sameInput
  | sameOutput
  /-- The input stands in the script, as the document of the given number. -/
  | document (number : Nat)
deriving DecidableEq, Repr

mutual

inductive Part where
  | text (cs : Octets) (quoted : Bool)
  | parameter (name : Octets) (quoted : Bool)
  /-- The value of a parameter, with a modifier and its word. An empty value counts as none if
  `emptyToo` holds. -/
  | modified (name : Octets) (m : Modifier) (emptyToo : Bool) (word : List Part) (quoted : Bool)
  | length (name : Octets) (quoted : Bool)
  | output (body : List Command) (quoted : Bool)
  | arithmetic (expression : List Part) (quoted : Bool)

inductive Redirection where
  | mk (descriptor : Nat) (kind : Redirection.Kind) (target : List Part)

inductive Command where
  | simple (line : Nat) (assignments : List (Octets × List Part)) (words : List (List Part))
      (redirections : List Redirection)
  | pipeline (negated : Bool) (commands : List Command)
  | andThen (left right : Command)
  | orElse (left right : Command)
  | background (c : Command)
  | group (body : List Command)
  /-- What it changes in the shell does not last. -/
  | subshell (body : List Command)
  | redirected (c : Command) (redirections : List Redirection)
  | conditional (branches : List (List Command × List Command)) (otherwise : List Command)
  | loop (untilTrue : Bool) (condition body : List Command)
  | each (name : Octets) (words : Option (List (List Part))) (body : List Command)
  | choice (word : List Part) (arms : List (List (List Part) × List Command))
  | function (name : Octets) (body : Command)
  /-- The process does nothing after it, so that a program takes the place of the process. -/
  | last (c : Command)

end

abbrev Word := List Part

def Command.untilLast : List Command → List Command
  | [] => []
  | [.simple line assignments words rs] => [.last (.simple line assignments words rs)]
  | c :: cs => c :: untilLast cs

def Command.alone : Command → Command
  | .group body => .group (untilLast body)
  | .subshell body => .group (untilLast body)
  | .simple line assignments words rs => .last (.simple line assignments words rs)
  | c => c

instance : Inhabited Command :=
  ⟨.group []⟩

instance : Inhabited Part :=
  ⟨.text [] false⟩

end Allotment.Shell
