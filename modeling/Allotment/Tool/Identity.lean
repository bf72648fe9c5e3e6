import Allotment.Tool.Basic

/-!
# Who and where

Tools that tell the user, the system, the directory and the places of programs. Commands run as the
user with the number zero, and there is no terminal.
-/

namespace Allotment.Tool

open Text (Octets)

namespace Identity

def alone (known : Known) (f : Options → Attempt) : Tool := fun s => Attempt.settle do
  let o ← s.options known
  match o.operands with
  | [] => f o
  | extra :: _ => throw (s.misused known.misuse ("extra operand ".toList ++ quoted extra))

def line (text : String) : Attempt :=
  return { output := text.toList ++ ['\n'] }

def user : Tool := alone {} fun _ => line "root"

def id : Tool := fun s => Attempt.settle do
  let o ← s.options
    { flags := "ugGnrza"
      words := [("user", 'u'), ("group", 'g'), ("groups", 'G'), ("name", 'n'), ("real", 'r')] }
  match o.operands.filter (· ≠ "root".toList) with
  | [] =>
    let isPart := o.has 'u' || o.has 'g' || o.has 'G'
    if o.has 'n' ∧ ¬isPart then
      throw (failed 1 "cannot print only names or real IDs in default format")
    line (if !isPart then "uid=0(root) gid=0(root) groups=0(root)"
      else if o.has 'n' then "root" else "0")
  | other :: _ => throw { messages := [quoted other ++ ": no such user".toList], status := 1 }

/-- What is told about the system, by the letters of options. Its name in the network and its
release are not known. -/
def systemParts : List (Char × String) :=
  [('s', "Linux"), ('m', "x86_64"), ('o', "GNU/Linux")]

def system : Tool :=
  alone
    { flags := "asnrvmpio"
      words := [("all", 'a'), ("kernel-name", 's'), ("nodename", 'n'), ("kernel-release", 'r'),
        ("kernel-version", 'v'), ("machine", 'm'), ("operating-system", 'o')] } fun o =>
    let asked := if o.given.isEmpty then ['s'] else o.given.map (·.1)
    let parts := systemParts.filter fun p => 'a' ∈ asked || p.1 ∈ asked
    line (" ".intercalate (parts.map (·.2)))

def terminal : Tool :=
  alone { flags := "s", words := [("silent", 's'), ("quiet", 's')], misuse := 2 } fun o =>
    return { output := if o.has 's' then [] else "not a tty\n".toList, status := 1 }

def directory : Tool := fun s => Attempt.settle do
  let _ ← s.options { flags := "LP" }
  return { output := s.disk.here ++ ['\n'] }

def which : Tool := fun s => Attempt.settle do
  let o ← s.options { flags := "as", misuse := 2, anywhere := false }
  let places := Octets.splitOn ':' ((s.bindings.lookup "PATH".toList).getD [])
  let found := o.operands.map fun a =>
    if '/' ∈ a then (if s.isProgram a then some a else none)
    else (places.map fun d => d ++ '/' :: a).find? s.isProgram
  return {
    output := Octets.unlines (found.filterMap fun p => p)
    status := if found.isEmpty ∨ found.any Option.isNone then 1 else 0 }

def dateText : Octets → Octets
  | '%' :: '%' :: cs => '%' :: dateText cs
  | '%' :: 'n' :: cs => '\n' :: dateText cs
  | '%' :: 't' :: cs => '\t' :: dateText cs
  | '%' :: _ :: cs => dateText cs
  | c :: cs => c :: dateText cs
  | [] => []

/-- Prints a text with the date in it. No clock is read: the date is that on which clocks begin. -/
def date : Tool := fun s => Attempt.settle do
  let o ← s.options { flags := "uR", valued := "dIrs", words := [("date", 'd'), ("utc", 'u')] }
  match o.operands with
  | [] => line "Thu Jan  1 00:00:00 UTC 1970"
  | ['+' :: format] => return { output := dateText format ++ ['\n'] }
  | [a] => throw { messages := ["invalid date ".toList ++ quoted a], status := 1 }
  | _ :: extra :: _ => throw (s.misused 1 ("extra operand ".toList ++ quoted extra))

def realPath : Tool := fun s => Attempt.settle do
  let o ← s.options { flags := "emPLsqz" }
  if o.operands.isEmpty then throw (s.misused 1 "missing operand".toList)
  let results := o.operands.map fun a =>
    let path := s.disk.resolve a
    let isThere (p : Octets) : Bool := s.disk.isDirectory p || s.disk.isFile p || s.isProgram p
    let mayBe := o.has 'm' || isThere path || !o.has 'e' && isThere (Path.directory path)
    if mayBe then Except.ok path else .error (a ++ ": No such file or directory".toList)
  let messages := results.filterMap fun
    | .error m => some m
    | .ok _ => none
  return {
    output := Octets.unlines (results.filterMap Except.toOption), messages
    status := if messages.isEmpty then 0 else 1 }

end Identity

end Allotment.Tool
