import Enclave.Path

/-! # Where the parts of an environment are

An environment is a directory.  Its executables are in `bin`, its build record is a file of its own,
and the lock for building it is a file next to it. -/

namespace Enclave.Layout

/-- The directory of an environment's executables. -/
def binDir (location : Path) : Path :=
  location.child "bin"

/-- The interpreter of an environment.  The empty location stands for the system, whose interpreter
is looked up by name. -/
def interpreter (location : Path) : Path :=
  if location.bytes == [] then .ofText "python3" else (binDir location).child "python"

/-- The name of the build record. -/
def recordName : String := ".spycery_build.json"

/-- The build record of an environment. -/
def recordFile (location : Path) : Path :=
  location.child recordName

/-- The file that becomes the build record once it is complete. -/
def recordDraft (location : Path) : Path :=
  location.child (recordName ++ ".tmp")

/-- The ending of a lock's name. -/
def lockSuffix : Bytes := Bytes.ofText ".lock"

/-- The lock of an environment: the file with the environment's name and the ending `.lock` in the
same directory. -/
def lockFile (location : Path) : Path :=
  location.withFileName ((location.fileName?.getD (Bytes.ofText "env")) ++ lockSuffix)

/-- The wording for a relative path that could leave the directory it is seen from. -/
def escapeMessage (relative : String) : String :=
  s!"path escapes environment root: {relative}"

/-- The name of a requirement file. -/
def requirementsName : String := "requirements.txt"

end Enclave.Layout
