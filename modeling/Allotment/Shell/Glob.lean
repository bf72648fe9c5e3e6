import Allotment.Text.OctetClass

/-!
# Patterns of the shell

A pattern is text in which a star stands for any octets, a question mark for one octet, and
brackets for one octet of a class. What is quoted stands for itself.
-/

namespace Allotment.Shell

open Text (Octets)

/-- A part of a pattern. -/
inductive Glob where
  | one (p : Char → Bool)
  | many

namespace Glob

abbrev Symbol := Char × Bool

/-- The name of a class up to the colon and bracket that end it, and what follows. -/
def className? : List Symbol → Option (List Char × List Symbol)
  | (':', false) :: (']', false) :: rest => some ([], rest)
  | (c, _) :: rest => (className? rest).map fun (name, rest) => (c :: name, rest)
  | [] => none

/-- The class between brackets, read up to the closing one, and what follows. A bracket that comes
first stands for itself. -/
def members? : (n : Nat) → (isFirst : Bool) → List Symbol →
    Option ((Char → Bool) × List Symbol)
  | 0, _, _ => none
  | n + 1, isFirst, s =>
    match s with
    | [] => none
    | (c, quoted) :: rest =>
      if c = ']' ∧ ¬quoted ∧ ¬isFirst then some (fun _ => false, rest)
      else
        let named := match rest with
          | (':', false) :: inner =>
            if c = '[' ∧ ¬quoted then
              (className? inner).bind fun (name, rest) =>
                (Octets.class? (String.ofList name)).map fun p => (p, rest)
            else none
          | _ => none
        match named with
        | some (p, rest) =>
          (members? n false rest).map fun (q, rest) => (fun d => p d || q d, rest)
        | none =>
          match rest with
          | ('-', false) :: (high, highQuoted) :: after =>
            if high = ']' ∧ ¬highQuoted then
              (members? n false rest).map fun (q, rest) => (fun d => d == c || q d, rest)
            else
              (members? n false after).map fun (q, rest) =>
                (fun d => c ≤ d && d ≤ high || q d, rest)
          | _ => (members? n false rest).map fun (q, rest) => (fun d => d == c || q d, rest)

/-- The class that begins after an opening bracket, and what follows. -/
def class? (s : List Symbol) : Option ((Char → Bool) × List Symbol) :=
  match s with
  | ('!', false) :: rest =>
    (members? (rest.length + 1) true rest).map fun (p, rest) => (fun c => !p c, rest)
  | _ => members? (s.length + 1) true s

/-- The parts of a pattern. A bracket that is not closed stands for itself. -/
def ofSymbols : (n : Nat) → List Symbol → List Glob
  | 0, _ => []
  | _, [] => []
  | n + 1, (c, quoted) :: rest =>
    if quoted then one (· == c) :: ofSymbols n rest
    else if c = '*' then many :: ofSymbols n rest
    else if c = '?' then one (fun _ => true) :: ofSymbols n rest
    else if c = '[' then
      match class? rest with
      | some (p, rest) => one p :: ofSymbols n rest
      | none => one (· == c) :: ofSymbols n rest
    else if c = '\\' then
      match rest with
      | (d, _) :: rest => one (· == d) :: ofSymbols n rest
      | [] => [one (· == c)]
    else one (· == c) :: ofSymbols n rest

def fits : List Glob → Octets → Bool
  | [], s => s.isEmpty
  | one _ :: _, [] => false
  | one p :: g, c :: s => p c && fits g s
  | many :: g, s => (List.range (s.length + 1)).any fun k => fits g (s.drop k)

def ofPattern (s : List Symbol) : List Glob :=
  ofSymbols (s.length + 1) s

/-- The text less a beginning or an end that matches; the text itself if none does. -/
def trim (atEnd longest : Bool) (g : List Glob) (s : Octets) : Octets :=
  let cuts := List.range (s.length + 1)
  let lengths := if atEnd = longest then cuts else cuts.reverse
  let found := lengths.find? fun k =>
    if atEnd then fits g (s.drop k) else fits g (s.take k)
  match found with
  | some k => if atEnd then s.take k else s.drop k
  | none => s

end Glob

end Allotment.Shell
