import Enclave.World

/-! # A system without users' files

The files that are there before anything else: the directories of the system, its devices and its
programs. -/

namespace Enclave.World

/-- The programs of the system. -/
def programNames : List String :=
  ["[", "basename", "cat", "chmod", "cp", "dirname", "echo", "env", "false", "head", "ln", "ls",
    "mkdir", "mv", "printenv", "printf", "pwd", "readlink", "rm", "rmdir", "seq", "sh", "sleep",
    "sort", "tail", "tee", "test", "touch", "tr", "true", "wc"]

/-- The directory of the programs. -/
def programDirectory : String := "/usr/bin"

/-- The directories of the system, each after the one that holds it. -/
def systemDirectories : List String :=
  ["/dev", "/etc", "/home", "/root", "/tmp", "/usr", "/usr/bin", "/var"]

/-- The file system before any user has written to it. -/
def systemFiles : FileSystem :=
  let bare : FileSystem := ⟨[], 1⟩
  let withDirectories := systemDirectories.foldl
    (fun files path => files.putNew (Location.ofText path) .directory) bare
  let withDevices := (withDirectories.put (Location.ofText "/dev/null") (.device .null)).put
    (Location.ofText "/dev/zero") (.device .zero)
  let withPrograms := programNames.foldl
    (fun files name => files.put (Location.ofText programDirectory ++ [Bytes.ofText name])
      (.program name)) withDevices
  withPrograms.put (Location.ofText "/bin") (.link (.ofText "usr/bin"))

/-- The world of a process that starts in a new directory of a bare system. -/
def start (directory : String) : World :=
  let location := Location.ofText directory
  let (_, files) := systemFiles.createDirectories [] location.path
  World.enter ⟨files, [], 0, .empty, [], .zero, []⟩ location

end Enclave.World
