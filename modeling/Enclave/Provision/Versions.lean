import Enclave.Json.Basic
import Enclave.Provision.Venv

/-! # Version reports

The version of an environment's interpreter and its packages, read from the children that know them,
and written as a table, as a listing or as a document.  A listing is what is read as one
(`packagesOf` beside `listing`). -/

namespace Enclave

/-- The versions of an interpreter and of packages. -/
structure VersionReport where
  interpreter : String
  packages : Table String
deriving DecidableEq, Repr

namespace VersionReport

open Venv (Steps ask)

/-- What an interpreter puts in front of its version. -/
def label : String := "Python "

/-- The version in what an interpreter wrote: old ones write it to the error stream. -/
def versionIn (stdout stderr : String) : String :=
  let text := if Text.trimmed stdout = "" then stderr else stdout
  let text := Text.trim text.toList
  String.ofList
    (if label.toList.isPrefixOf text then text.drop label.length else text)

/-- Finds out the versions in an environment, or in the system for no location. -/
def ofEnvironment (location : Option Path) (limit : Duration) :
    Steps (Except Explanation VersionReport) := do
  let location := location.getD ⟨[]⟩
  let interpreter := (Layout.interpreter location).display
  match ← ask (.run (Venv.versionCommand location) limit) with
  | .error cause => return .error (.because s!"Failed to run {interpreter}" cause)
  | .ok output =>
      if output.success then
        match ← Venv.installedPackages location limit with
        | .error explanation => return .error explanation
        | .ok packages => return .ok ⟨versionIn output.stdout output.stderr, packages⟩
      else
        return .error ⟨s!"{interpreter} --version failed: {Text.trimmed output.stderr}", []⟩

/-- A text that takes up at least 24 columns. -/
def column (text : String) : String :=
  text ++ String.ofList (List.replicate (24 - text.length) ' ')

/-- The interpreter and the packages, each with its version. -/
def rows (report : VersionReport) : List (String × String) :=
  ("python", report.interpreter) :: report.packages.sorted

/-- A row of the table. -/
def row : String × String → String
  | (name, version) => s!"    {column name} {version}"

/-- The line of a listing about a package. -/
def listingLine : String × String → String
  | (name, version) => if version = "" then name else s!"{name}=={version}"

/-- The listing of all packages. -/
def listing (report : VersionReport) : List String :=
  report.packages.sorted.map listingLine

/-- The report as a document. -/
def toJson (report : VersionReport) : Json.Value :=
  .ofMembers [("python", .ofText report.interpreter),
    ("packages", .ofMembers (report.packages.sorted.map fun (name, version) =>
      (name, .ofText version)))]

end VersionReport
end Enclave
