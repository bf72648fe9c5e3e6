import Allotment.Tool.Basic
import Allotment.Tool.Directive
import Allotment.Tool.Escape

/-!
# Printing by a format

A format is text with escapes and directives, each of which prints one argument. It is used again
until no argument is left. The shell has a `Formatter` of its own.
-/

namespace Allotment.Tool

open Text (Octets)

/-- How formats are understood. -/
structure Formatter where
  formatEscapes : Escapes
  argumentEscapes : Escapes
  precision : Floating.Precision
  /-- Letters before the kind of a directive that mean nothing. -/
  sizes : List Char
  /-- The formatter of the shell. It takes marks for all kinds of directives, and bytes for
  characters. -/
  isShell : Bool

namespace Formatter

def shell : Formatter :=
  ⟨.shellFormat, .shellText, Floating.double, [], true⟩

def command : Formatter :=
  ⟨.format, .argument, Floating.extended, ['l', 'L', 'h', 'j', 't', 'z'], false⟩

/-- What has been printed, and what is left. -/
structure Progress where
  args : List Octets
  /-- What has been printed, the last piece first. -/
  printed : List Octets := []
  messages : List Octets := []
  status : Nat := 0

abbrev Print := ExceptT Unit (StateM Progress)

def print (cs : Octets) : Print Unit :=
  modify fun p => { p with printed := cs :: p.printed }

def complain (status : Nat) (message : Octets) : Print Unit :=
  modify fun p => { p with messages := message :: p.messages, status := max p.status status }

def refuse (status : Nat) (message : Octets) : Print Unit := do
  complain status message
  throw ()

def argument : Print Octets := do
  let p ← get
  set { p with args := p.args.tail }
  return p.args.headD []

/-- Prints what escapes have been replaced in, and ends if one of them says so. -/
def printExpanded (d : Directive) (r : Octets × Option Escapes.Halt) : Print Unit := do
  print (d.text r.1)
  match r.2 with
  | none => return ()
  | some .stopped => throw ()
  | some (.failed message) => refuse 1 message.toList

/-- Tells that an argument is no number, or not in whole, or too great. -/
def complainOf (f : Formatter) (arg : Octets) (isBegun tooGreat : Bool) : Print Unit :=
  let shown := if f.isShell then arg else quoted arg
  let what :=
    if tooGreat then "Numerical result out of range"
    else if f.isShell then
      if isBegun then "not completely converted" else "expected numeric value"
    else if isBegun then "value not completely converted" else "expected a numeric value"
  complain 1 (shown ++ ": ".toList ++ what.toList)

def characterValue? (f : Formatter) : Octets → Option Nat
  | '\'' :: cs => value cs
  | '"' :: cs => value cs
  | _ => none
where
  /-- The number of the first character. -/
  value (cs : Octets) : Option Nat :=
    match (Octets.characters cs.length cs).head? with
    | none => if f.isShell then some 0 else none
    | some octets =>
      let first := (octets.headD ' ').toNat
      if f.isShell then some first
      else match octets with
        | [_, b] => some (first % 0x20 * 0x40 + b.toNat % 0x40)
        | [_, b, c] => some ((first % 0x10 * 0x40 + b.toNat % 0x40) * 0x40 + c.toNat % 0x40)
        | [_, b, c, d] =>
          some (((first % 8 * 0x40 + b.toNat % 0x40) * 0x40 + c.toNat % 0x40) * 0x40 +
            d.toNat % 0x40)
        | _ => some first

/-- The sign and the digits of an argument, and whether it is a number in whole. -/
def wholeNumber (f : Formatter) (arg : Octets) : Print (Bool × Nat) := do
  if let some n := f.characterValue? arg then return (false, n)
  let cs := arg.dropWhile Octets.isSpace
  let (isNegative, ds) := match cs with
    | '-' :: ds => (true, ds)
    | '+' :: ds => (false, ds)
    | ds => (false, ds)
  match Text.Radix.natural? ds with
  | some (n, rest) =>
    unless rest.isEmpty do f.complainOf arg true false
    return (isNegative, n)
  | none =>
    unless arg.isEmpty do f.complainOf arg false false
    return (false, 0)

def signedArgument (f : Formatter) : Print Int := do
  let arg ← argument
  let (isNegative, n) ← f.wholeNumber arg
  let n : Int := if isNegative then -n else n
  let m := max (-0x8000000000000000) (min 0x7FFFFFFFFFFFFFFF n)
  unless m = n do f.complainOf arg true true
  return m

/-- The next argument as a natural number of 64 bits. What is negative counts down from the
greatest one. -/
def unsignedArgument (f : Formatter) : Print Nat := do
  let arg ← argument
  let (isNegative, n) ← f.wholeNumber arg
  if 0x10000000000000000 ≤ n then
    f.complainOf arg true true
    return 0xFFFFFFFFFFFFFFFF
  return if isNegative then (0x10000000000000000 - n) % 0x10000000000000000 else n

def floatingArgument (f : Formatter) : Print Floating := do
  let arg ← argument
  if let some n := f.characterValue? arg then return .finite false n 1
  match Floating.read? f.precision arg with
  | some (x, rest) =>
    let isWord := (arg.map Char.toLower).any (· == 'i')
    if ¬x.isFinite ∧ ¬isWord ∧ ¬(arg.map Char.toLower).any (· == 'n') then
      f.complainOf arg true true
    else unless rest.isEmpty do f.complainOf arg true false
    return x
  | none =>
    unless arg.isEmpty do f.complainOf arg false false
    return .finite false 0 1

def kinds : List Char :=
  ['c', 's', 'd', 'i', 'o', 'u', 'x', 'X', 'e', 'E', 'f', 'F', 'g', 'G']

/-- Whether a directive of the kind may have its marks and its precision. -/
def mayStand (f : Formatter) (kind : Char) (d : Directive) : Bool :=
  f.isShell ||
    !(d.alternate && kind ∈ ['c', 'd', 'i', 's', 'u'] || d.zeros && kind ∈ ['c', 's'] ||
      d.precision.isSome && kind == 'c' ||
      d.grouped && kind ∈ ['c', 'e', 'E', 'o', 's', 'x', 'X'])

def convert (f : Formatter) (kind : Char) (d : Directive) : Print Unit := do
  if kind = 'b' then printExpanded d (f.argumentEscapes.expand (← argument))
  else if kind = 's' then print (d.text (← argument))
  else if kind = 'c' then print (d.fill [(← argument).headD '\x00'])
  else if kind = 'd' ∨ kind = 'i' then print (d.signed (← f.signedArgument))
  else if kind ∈ ['o', 'u', 'x', 'X'] then print (d.unsigned kind (← f.unsignedArgument))
  else print (d.floating kind (← f.floatingArgument))

/-- A number in a format, or a star for the next argument, and what follows. -/
def count? (f : Formatter) (cs : Octets) : Print (Option Int × Octets) := do
  match cs with
  | '*' :: rest => return (some (← f.signedArgument), rest)
  | _ =>
    let (ds, rest) := Text.Radix.split 10 cs
    return (if ds.isEmpty then none else some (Text.Radix.value 10 ds), rest)

/-- Reads a directive after its percent sign, and prints an argument as it says. The result is what
follows. -/
def directive (f : Formatter) (cs : Octets) : Print Octets := do
  let marks := cs.takeWhile fun c => Directive.isMark c || c == '\'' && !f.isShell
  let d := marks.foldl Directive.mark {}
  let (width, rest) ← f.count? (cs.drop marks.length)
  let width := width.getD 0
  if 0x7FFFFFFF < width.natAbs then
    refuse 1 "invalid field width".toList
  let d := if width < 0 then { d with leftAligned := true } else d
  let d := { d with width := width.natAbs }
  let (d, rest) ← match rest with
    | '.' :: rest => do
      let (precision, rest) ← f.count? rest
      let p := precision.getD 0
      if 0x7FFFFFFF < p then refuse 1 "invalid precision".toList
      pure ({ d with precision := if p < 0 then none else some p.toNat }, rest)
    | _ => pure (d, rest)
  let rest := rest.dropWhile (· ∈ f.sizes)
  let isKnown := match rest with
    | kind :: _ =>
      if kind = 'b' then f.isShell || rest.length == cs.length
      else kind ∈ kinds && f.mayStand kind d
    | [] => false
  match rest with
  | kind :: rest =>
    if isKnown then
      f.convert kind d
      return rest
    else
      let text := '%' :: cs.take (cs.length - rest.length)
      if f.isShell then refuse 2 (text ++ ": invalid directive".toList)
      else refuse 1 (text ++ ": invalid conversion specification".toList)
      return []
  | [] =>
    if f.isShell then refuse 2 "missing format character".toList
    else refuse 1 ('%' :: cs ++ ": invalid conversion specification".toList)
    return []

def once (f : Formatter) : (n : Nat) → Octets → Print Unit
  | 0, _ => return ()
  | _, [] => return ()
  | n + 1, '%' :: '%' :: cs => do
    print ['%']
    once f n cs
  | n + 1, '%' :: cs => do
    once f n (← f.directive cs)
  | n + 1, '\\' :: cs =>
    match f.formatEscapes.step cs with
    | .goOn out rest => do
      print out
      once f n rest
    | .halt h => printExpanded {} ([], some h)
  | n + 1, c :: cs => do
    print [c]
    once f n cs

def again (f : Formatter) (format : Octets) : (n : Nat) → Print Unit
  | 0 => return ()
  | n + 1 => do
    let before := (← get).args
    f.once (format.length + 1) format
    let left := (← get).args
    match left with
    | [] => return ()
    | arg :: _ =>
      if left.length < before.length then again f format n
      else unless f.isShell do
        complain 0 ("warning: ignoring excess arguments, starting with ".toList ++ quoted arg)

def run (f : Formatter) (format : Octets) (args : List Octets) : Outcome :=
  let (_, p) := (f.again format (args.length + 1)).run.run { args }
  { output := p.printed.reverse.flatten, messages := p.messages.reverse, status := p.status }

def tool (f : Formatter) : Tool := fun s =>
  let args := if s.args.head? = some ['-', '-'] then s.args.tail else s.args
  match args with
  | [] =>
    if f.isShell then failed 2 "usage: printf format [arg ...]" else failed 1 "missing operand"
  | format :: rest =>
    match f.isShell, s.args with
    | true, ('-' :: c :: _) :: _ =>
      if c = '-' then f.run format rest
      else failed 2 ("Illegal option -" ++ String.singleton c)
    | _, _ => f.run format rest

end Formatter

end Allotment.Tool
