/-!
# Matchers

A matcher takes something off the beginning of a text as a reader does, but it lists all the ways in
which that can be done, in the order of preference in which a backtracking engine tries them. What
comes after it may rule out the first ones, and then a later one counts. Of two alternatives
`m <|> m'` those of the first one come first.
-/

namespace Allotment.Text

/-- The ways to take a value off the beginning of a text, each with what it leaves. -/
def Matcher (α : Type) := List Char → List (α × List Char)

namespace Matcher

variable {α : Type}

instance : Monad Matcher where
  pure a := fun s => [(a, s)]
  bind m f := fun s => (m s).flatMap fun (a, rest) => f a rest

instance : OrElse (Matcher α) where
  orElse m m' := fun s => m s ++ m' () s

def one (p : Char → Bool) : Matcher Char
  | c :: cs => if p c then [(c, cs)] else []
  | [] => []

def literal (w : String) : Matcher Unit := fun s =>
  if w.toList.isPrefixOf s then [((), s.drop w.length)] else []

def perhaps (m : Matcher α) : Matcher (Option α) :=
  some <$> m <|> pure none

/-- Characters of the class, first as many as there are, then fewer and fewer. -/
def greedy (p : Char → Bool) : Matcher (List Char)
  | [] => [([], [])]
  | c :: cs =>
    (if p c then (greedy p cs).map fun (w, rest) => (c :: w, rest) else []) ++ [([], c :: cs)]

def greedy1 (p : Char → Bool) : Matcher (List Char) := do
  let c ← one p
  return c :: (← greedy p)

/-- Characters of the class, first none, then more and more. -/
def lazy (p : Char → Bool) : Matcher (List Char)
  | [] => [([], [])]
  | c :: cs =>
    ([], c :: cs) :: if p c then (lazy p cs).map fun (w, rest) => (c :: w, rest) else []

def lazy1 (p : Char → Bool) : Matcher (List Char) := do
  let c ← one p
  return c :: (← lazy p)

def atEnd : Matcher Unit
  | [] => [((), [])]
  | _ :: _ => []

def first? (m : Matcher α) (s : List Char) : Option α :=
  (m s).head?.map (·.1)

end Matcher

end Allotment.Text
