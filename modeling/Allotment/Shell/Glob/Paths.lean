import Allotment.Shell.Glob
import Allotment.Tool.Disk
import Allotment.Tool.Order

/-!
# Paths that match

A field with an unquoted star, question mark or bracket stands for the paths that match it, in their
order. If there are none, it stands for itself.
-/

namespace Allotment.Shell

open Text (Octets)

namespace Glob

def isOpen (ss : List Symbol) : Bool :=
  ss.any fun (c, quoted) => !quoted && (c == '*' || c == '?' || c == '[')

def splitAtSlashes : List Symbol → List (List Symbol)
  | [] => [[]]
  | s :: ss =>
    match splitAtSlashes ss with
    | [] => [[s]]
    | part :: parts => if s.1 = '/' then [] :: part :: parts else (s :: part) :: parts

/-- The names in a directory that match a pattern. A name that begins with a dot is matched only by
a pattern that does. -/
def namesIn (d : Tool.Disk) (directory : Octets) (pattern : List Symbol) : List Octets :=
  let place := if directory.isEmpty then ['.'] else directory
  let always := (Tool.directories.map String.toList).filter fun p =>
    Tool.Path.directory p = d.resolve place ∧ p ≠ ['/']
  let names := d.names place ++ always.map Tool.Path.last
  let g := ofPattern pattern
  if pattern.head?.any (·.1 == '.') then
    ([['.'], ['.', '.']] ++ names.filter (·.head? == some '.')).filter (fits g)
  else names.filter fun n => n.head? != some '.' && fits g n

/-- The paths that begin as given and go on with names that match the parts. -/
def pathsFrom (d : Tool.Disk) (begun : Octets) : List (List Symbol) → List Octets
  | [] => [begun]
  | [part] => endsOf part
  | part :: parts =>
    ((endsOf part).filter fun p => p.isEmpty || d.isDirectory p).flatMap fun p =>
      pathsFrom d (p ++ ['/']) parts
where
  /-- The paths that begin as given and end with a name that matches. -/
  endsOf (part : List Symbol) : List Octets :=
    if isOpen part then (namesIn d begun part).map (begun ++ ·)
    else [begun ++ part.map (·.1)]

def paths (d : Tool.Disk) (field : List Symbol) : List Octets :=
  let itself := [field.map (·.1)]
  if ¬isOpen field then itself
  else
    let found := (pathsFrom d [] (splitAtSlashes field)).filter fun p =>
      d.isDirectory p || d.isFile p
    if found.isEmpty then itself else found.mergeSort fun a b => Tool.compareOctets a b != .gt

end Glob

end Allotment.Shell
