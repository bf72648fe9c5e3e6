/-!
# Faults of the operating system

Files that cannot be read and programs that cannot be started are reported in the words of the
operating system.
-/

namespace Allotment

/-- Why the operating system refused something, or could not even be asked. -/
inductive SystemFault where
  | notFound
  | notPermitted
  /-- A path goes on after a file. -/
  | notDirectory
  | nameTooLong
  | argumentsTooLong
  /-- A name or an argument holds the character zero, with which such texts end. -/
  | zeroByte
deriving DecidableEq, Repr

/-- The fault in words, with the number that the operating system gives to it. -/
def SystemFault.text : SystemFault → String
  | notFound => "No such file or directory (os error 2)"
  | notPermitted => "Permission denied (os error 13)"
  | notDirectory => "Not a directory (os error 20)"
  | nameTooLong => "File name too long (os error 36)"
  | argumentsTooLong => "Argument list too long (os error 7)"
  | zeroByte => "nul byte found in provided data"

end Allotment
