import Allotment.Tool.Order

/-!
# Files

Tools that print parts of paths, and tools that make, copy, move, list and remove files.
-/

namespace Allotment.Tool

open Text (Octets)

namespace Files

def withoutSuffix (suffix name : Octets) : Octets :=
  if suffix.isSuffixOf name ∧ name ≠ suffix then name.take (name.length - suffix.length) else name

def basename : Tool := fun s => Attempt.settle do
  let o ← s.options
    { flags := "az", valued := "s", anywhere := false
      words := [("multiple", 'a'), ("suffix", 's'), ("zero", 'z')] }
  let ending : Char := if o.has 'z' then '\x00' else '\n'
  let several := o.has 'a' || o.has 's'
  match o.operands with
  | [] => throw (s.misused 1 "missing operand".toList)
  | path :: more =>
    if several then
      let suffix := (o.value? 's').getD []
      return { output := (path :: more).flatMap fun p =>
        withoutSuffix suffix (Path.last p) ++ [ending] }
    match more with
    | [] => return { output := Path.last path ++ [ending] }
    | [suffix] => return { output := withoutSuffix suffix (Path.last path) ++ [ending] }
    | _ :: extra :: _ => throw (s.misused 1 ("extra operand ".toList ++ quoted extra))

def dirname : Tool := fun s => Attempt.settle do
  let o ← s.options { flags := "z", words := [("zero", 'z')] }
  let ending : Char := if o.has 'z' then '\x00' else '\n'
  if o.operands.isEmpty then throw (s.misused 1 "missing operand".toList)
  return { output := o.operands.flatMap fun p => Path.directory p ++ [ending] }

abbrev Step := Disk → Octets → Except String Disk

/-- Takes a step for each path; a message tells what could not be done. -/
def forEach (d : Disk) (what : String) (step : Step) (paths : List Octets) : Outcome :=
  let (d, messages) := paths.foldl (fun (d, messages) path =>
    match step d path with
    | .ok d => (d, messages)
    | .error why =>
      (d, messages ++ [what.toList ++ [' ', '\''] ++ path ++ ("': " ++ why).toList])) (d, [])
  { written := some d, messages, status := if messages.isEmpty then 0 else 1 }

def setMode : Tool := fun s => Attempt.settle do
  match s.args with
  | _ :: first :: more =>
    let isThere (p : Octets) : Bool := s.disk.isDirectory p || s.disk.isFile p
    let missing := (first :: more).filter fun p => !isThere p
    return {
      messages := missing.map fun p =>
        "cannot access '".toList ++ p ++ "': No such file or directory".toList
      status := if missing.isEmpty then 0 else 1 }
  | _ => throw (s.misused 1 "missing operand".toList)

def remove : Tool := fun s => Attempt.settle do
  let o ← s.options
    { flags := "frRivd", words := [("force", 'f'), ("recursive", 'r'), ("verbose", 'v')] }
  if o.operands.isEmpty ∧ ¬o.has 'f' then throw (s.misused 1 "missing operand".toList)
  let isDeep := o.has 'r' || o.has 'R'
  return forEach s.disk "cannot remove" (fun d path =>
    if (d.content? path).isSome then .ok (d.remove path)
    else if d.isDirectory path then
      if isDeep then .ok (d.removeAll path) else .error "Is a directory"
    else if o.has 'f' then .ok d
    else .error "No such file or directory") o.operands

def makeDirectory : Tool := fun s => Attempt.settle do
  let o ← s.options { flags := "pv", valued := "m", words := [("parents", 'p'), ("mode", 'm')] }
  if o.operands.isEmpty then throw (s.misused 1 "missing operand".toList)
  return forEach s.disk "cannot create directory" (fun d path =>
    if d.isDirectory path then (if o.has 'p' then .ok d else .error "File exists")
    else if (d.content? path).isSome then .error "File exists"
    else if o.has 'p' then .ok (parents path.length d path)
    else if d.hasPlaceFor path then .ok (d.makeDirectory path)
    else .error "No such file or directory") o.operands
where
  /-- Makes a directory and those in which it is. -/
  parents : (n : Nat) → Disk → Octets → Disk
    | 0, d, _ => d
    | n + 1, d, path =>
      if d.isDirectory path then d
      else (parents n d (Path.directory (d.resolve path))).makeDirectory path

def removeDirectory : Tool := fun s => Attempt.settle do
  let o ← s.options { flags := "pv" }
  if o.operands.isEmpty then throw (s.misused 1 "missing operand".toList)
  return forEach s.disk "failed to remove" (fun d path =>
    if d.folders.contains (d.resolve path) then
      if (d.names path).isEmpty then .ok (d.removeAll path) else .error "Directory not empty"
    else if d.isDirectory path then .error "Device or resource busy"
    else if (d.content? path).isSome then .error "Not a directory"
    else .error "No such file or directory") o.operands

def touch : Tool := fun s => Attempt.settle do
  let o ← s.options { flags := "acm", valued := "dtr" }
  if o.operands.isEmpty then throw (s.misused 1 "missing file operand".toList)
  return forEach s.disk "cannot touch" (fun d path =>
    if (d.content? path).isSome ∨ d.isDirectory path ∨ o.has 'c' then .ok d
    else if d.hasPlaceFor path then .ok (d.write path [])
    else .error "No such file or directory") o.operands

def copy (removes : Bool) : Tool := fun s => Attempt.settle do
  let o ← s.options { flags := "fpavnTirRu" }
  match o.operands.reverse with
  | [] => throw (s.misused 1 "missing file operand".toList)
  | [a] => throw (s.misused 1 ("missing destination file operand after ".toList ++ quoted a))
  | target :: sources =>
    return forEach s.disk "cannot stat" (fun d path =>
      let place := if d.isDirectory target then target ++ '/' :: Path.last path else target
      match d.content? path with
      | some text =>
        let copied := d.write place text
        .ok (if removes ∧ d.resolve place ≠ d.resolve path then copied.remove path else copied)
      | none => .error "No such file or directory") sources.reverse

def inLines (names : List Octets) : Octets :=
  Octets.unlines (names.mergeSort fun a b => compareOctets a b != .gt)

def list : Tool := fun s => Attempt.settle do
  let o ← s.options { flags := "1aAdlhrtFCpR", misuse := 2 }
  let operands := if o.operands.isEmpty then [['.']] else o.operands
  let isFolder (path : Octets) : Bool := s.disk.isDirectory path && !o.has 'd'
  let isThere (path : Octets) : Bool :=
    s.disk.isDirectory path || s.disk.isNull path || (s.disk.content? path).isSome ||
      s.isProgram path
  let missing := operands.filter fun path => !isThere path
  let files := operands.filter fun path => isThere path && !isFolder path
  let folders := operands.filter isFolder
  let dots : List Octets := if o.has 'a' then [['.'], ['.', '.']] else []
  let inside (path : Octets) : Octets :=
    inLines (dots ++ (s.disk.names path).filter fun n =>
      o.has 'a' || o.has 'A' || n.head? != some '.')
  let parts := (if files.isEmpty then [] else [inLines files]) ++ folders.map fun path =>
    if 1 < operands.length then path ++ ":\n".toList ++ inside path else inside path
  return {
    output := ['\n'].intercalate parts
    messages := missing.map fun path =>
      "cannot access '".toList ++ path ++ "': No such file or directory".toList
    status := if missing.isEmpty then 0 else 2 }

end Files

end Allotment.Tool
