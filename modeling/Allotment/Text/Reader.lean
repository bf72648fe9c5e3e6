/-!
# Readers

A reader takes something off the beginning of a text and leaves the rest, or it fails and takes
nothing. Of two alternatives `a <|> b` the second one counts only where the first one fails.
-/

namespace Allotment.Text

abbrev Reader := StateT (List Char) Option

namespace Reader

variable {α β : Type}

def satisfying (p : Char → Bool) : Reader Char := fun s =>
  match s with
  | c :: cs => if p c then some (c, cs) else none
  | [] => none

def char (c : Char) : Reader Char :=
  satisfying (· == c)

def literal (w : String) : Reader Unit := fun s =>
  if w.toList.isPrefixOf s then some ((), s.drop w.length) else none

def run (p : Char → Bool) : Reader (List Char) := fun s =>
  some (s.takeWhile p, s.dropWhile p)

def run1 (p : Char → Bool) : Reader (List Char) := do
  let c ← satisfying p
  return c :: (← run p)

def exactly (n : Nat) : Reader (List Char) := fun s =>
  if n ≤ s.length then some (s.take n, s.drop n) else none

def atEnd : Reader Unit := fun s =>
  if s.isEmpty then some ((), s) else none

def ofOption (x : Option α) : Reader α := fun s =>
  x.map fun a => (a, s)

/-- Reads on until the reader fails, at most `n` times. -/
def atMost (r : Reader α) : (n : Nat) → List Char → List α × List Char
  | 0, s => ([], s)
  | n + 1, s =>
    match r s with
    | none => ([], s)
    | some (a, rest) =>
      let (as, rest) := atMost r n rest
      (a :: as, rest)

/-- Reads on until the reader fails. A reader that takes nothing off is repeated as often as there
are characters. -/
def many (r : Reader α) : Reader (List α) := fun s =>
  some (atMost r s.length s)

def separated1 (r : Reader α) (separator : Reader β) : Reader (List α) := do
  let a ← r
  return a :: (← many (separator *> r))

/-- What is read at the first place of the text at which the reader succeeds. -/
def search (r : Reader α) : List Char → Option α
  | [] => (r []).map (·.1)
  | c :: cs => (r (c :: cs)).map (·.1) <|> search r cs

def all (r : Reader α) (s : String) : Option α :=
  (StateT.run (r <* atEnd) s.toList).map (·.1)

end Reader

end Allotment.Text
