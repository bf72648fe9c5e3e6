import Allotment.Tool.Path

/-!
# Files and directories

A `Disk` holds the files that are known, by their paths from the root, and the directories that have
been made besides those that are always there.
-/

namespace Allotment.Tool

open Text (Octets)

def directories : List String :=
  ["/", "/bin", "/boot", "/dev", "/dev/shm", "/etc", "/home", "/lib", "/media", "/mnt", "/opt",
    "/proc", "/root", "/run", "/sbin", "/srv", "/sys", "/tmp", "/usr", "/usr/bin", "/usr/lib",
    "/usr/local", "/usr/local/bin", "/usr/sbin", "/usr/share", "/var", "/var/lib", "/var/log",
    "/var/tmp"]

/-- Files and directories. -/
structure Disk where
  files : List (Octets × Octets) := []
  /-- The directories besides those that are always there. -/
  folders : List Octets := []
  /-- The directory from which other paths than those from the root lead. -/
  here : Octets := ['/']

/-- Why a file cannot be read. -/
inductive Unreadable where
  | missing
  | directory
deriving DecidableEq

def Unreadable.text : Unreadable → String
  | missing => "No such file or directory"
  | directory => "Is a directory"

namespace Disk

def resolve (d : Disk) (path : Octets) : Octets :=
  Path.absolute d.here path

def isNull (d : Disk) (path : Octets) : Bool :=
  d.resolve path = "/dev/null".toList

/-- The devices that hold octets without end; what the octets are is not told of all of them. -/
def isEndless (d : Disk) (path : Octets) : Bool :=
  d.resolve path ∈ ["/dev/zero".toList, "/dev/random".toList, "/dev/urandom".toList]

def isDirectory (d : Disk) (path : Octets) : Bool :=
  let p := d.resolve path
  !path.isEmpty && (directories.any (·.toList = p) || d.folders.contains p || p = d.here)

def content? (d : Disk) (path : Octets) : Option Octets :=
  if path.getLast? = some '/' then none else d.files.lookup (d.resolve path)

def greatestRead : Nat := 1100000

/-- The content of a file or device; of one without end, the beginning. -/
def read (d : Disk) (path : Octets) : Except Unreadable Octets :=
  if d.isNull path then .ok []
  else if d.isEndless path then .ok (List.replicate greatestRead '\x00')
  else
    match d.content? path with
    | some content => .ok content
    | none => .error (if d.isDirectory path then .directory else .missing)

/-- A file can be made at the path: the directory in which it would be is there. -/
def hasPlaceFor (d : Disk) (path : Octets) : Bool :=
  !path.isEmpty && d.isDirectory (Path.directory (d.resolve path))

def write (d : Disk) (path content : Octets) : Disk :=
  let p := d.resolve path
  if d.isNull path then d
  else { d with files := (p, content) :: d.files.filter fun e => e.1 ≠ p }

def remove (d : Disk) (path : Octets) : Disk :=
  let p := d.resolve path
  { d with files := d.files.filter fun e => e.1 ≠ p }

def removeAll (d : Disk) (path : Octets) : Disk :=
  let p := d.resolve path
  let isInside (q : Octets) : Bool := q = p || (p ++ ['/']).isPrefixOf q
  { d with files := d.files.filter fun e => !isInside e.1
           folders := d.folders.filter fun q => !isInside q }

def makeDirectory (d : Disk) (path : Octets) : Disk :=
  { d with folders := d.resolve path :: d.folders }

def isFile (d : Disk) (path : Octets) : Bool :=
  d.isNull path || d.isEndless path || (d.content? path).isSome

def initial : Disk where
  files :=
    [("/etc/hosts".toList, "127.0.0.1\tlocalhost\n".toList),
      ("/etc/passwd".toList, "root:x:0:0:root:/root:/bin/bash\n".toList ++
        "daemon:x:1:1:daemon:/usr/sbin:/usr/sbin/nologin\n".toList ++
        "bin:x:2:2:bin:/bin:/usr/sbin/nologin\n".toList)]

def names (d : Disk) (path : Octets) : List Octets :=
  let p := d.resolve path
  ((d.files.map (·.1) ++ d.folders).filter fun q => Path.directory q = p ∧ q ≠ p).map Path.last

end Disk

end Allotment.Tool
