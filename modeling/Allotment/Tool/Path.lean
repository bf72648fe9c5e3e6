import Allotment.Text.Octets

/-!
# Paths

The parts of paths, and paths without parts that lead nowhere.
-/

namespace Allotment.Tool

open Text (Octets)

namespace Path

/-- A path without the slashes at its end. -/
def withoutSlashes (path : Octets) : Octets :=
  match (path.reverse.dropWhile (· == '/')).reverse with
  | [] => if path.isEmpty then [] else ['/']
  | p => p

/-- The last part of a path. -/
def last (path : Octets) : Octets :=
  let p := withoutSlashes path
  if p = ['/'] then p else (p.reverse.takeWhile (· != '/')).reverse

/-- What comes before the last part. -/
def directory (path : Octets) : Octets :=
  let p := withoutSlashes path
  if p = ['/'] then p
  else
    match p.reverse.dropWhile (· != '/') with
    | [] => ['.']
    | before => withoutSlashes before.reverse

/-- A path without empty parts, dots, and parts that two dots take back. -/
def normalized (path : Octets) : Octets :=
  let parts := (Octets.splitOn '/' path).foldl (fun ps p =>
    if p.isEmpty ∨ p = ['.'] then ps else if p = ['.', '.'] then ps.dropLast else ps ++ [p]) []
  '/' :: ['/'].intercalate parts

/-- The path from the root of what a path leads to from the given directory. -/
def absolute (here path : Octets) : Octets :=
  normalized (if path.head? = some '/' then path else here ++ '/' :: path)

end Path

end Allotment.Tool
