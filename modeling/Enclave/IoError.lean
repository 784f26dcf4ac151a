/-! # Failures of the operating system -/

namespace Enclave

/-- Why an operation on files or processes failed. -/
inductive IoError
  | notFound
  | permissionDenied
  | alreadyExists
  | notDirectory
  | isDirectory
  | notEmpty
  | busy
  | invalidArgument
  | nameTooLong
  | tooManyLinks
  | notExecutable
  | notUtf8
  | nulInPath
  | nulInArgument
  | noWholeTree
deriving DecidableEq, Repr, Inhabited

namespace IoError

/-- The system's wording and number of an error. -/
def systemText (words : String) (number : Nat) : String :=
  s!"{words} (os error {number})"

/-- The wording of a failure. -/
def message : IoError → String
  | notFound => systemText "No such file or directory" 2
  | permissionDenied => systemText "Permission denied" 13
  | alreadyExists => systemText "File exists" 17
  | notDirectory => systemText "Not a directory" 20
  | isDirectory => systemText "Is a directory" 21
  | notEmpty => systemText "Directory not empty" 39
  | busy => systemText "Device or resource busy" 16
  | invalidArgument => systemText "Invalid argument" 22
  | nameTooLong => systemText "File name too long" 36
  | tooManyLinks => systemText "Too many levels of symbolic links" 40
  | notExecutable => systemText "Exec format error" 8
  | notUtf8 => "stream did not contain valid UTF-8"
  | nulInPath => "file name contained an unexpected NUL byte"
  | nulInArgument => "nul byte found in provided data"
  | noWholeTree => "failed to create whole tree"

end IoError
end Enclave
