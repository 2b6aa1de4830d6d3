import ModuleRecovery.CommandLine.Arguments
import ModuleRecovery.CommandLine.Execution

/-!
A whole use of the command line: arguments and files in, and an exit code, texts and files out.
-/

namespace ModuleRecovery

/-- How a use of the command line ended. -/
structure Ending where
  code : Nat
  /-- What is printed as a result. -/
  printed : String
  failure : Option Failure
  /-- What is told besides. -/
  note : Option String
  files : FileTree
  deriving DecidableEq, Repr

/-- What is told of a file that was written. -/
def OutputFile.note (file : OutputFile) : Option String :=
  if file.told then some ("Wrote " ++ file.path) else none

def OutputFile.failure (file : OutputFile) (error : FileError) : Failure :=
  .output file.path ⟨error.message⟩

namespace NoRequest

def versionText : String := "archmod 0.1.0\n"

def helpText : String := "Recover candidate modules from a call graph by coupling-driven clustering

Usage: archmod [OPTIONS] <COMMAND>

Commands:
  coupling  Directional coupling ratio between two classes
  graph     Print the weighted class coupling graph
  cluster   Hierarchical clustering until coupling runs out
  modules   Bounded module identification
  analyze   Full analysis: coupling graph, clusters, and modules
  help      Print this message or the help of the given subcommand(s)

Options:
  -v, --verbose...  Increase verbosity (-v, -vv, -vvv)
  -q, --quiet       Suppress non-error output
  -h, --help        Print help
  -V, --version     Print version
"

/-- What is printed in place of a result. -/
def printed : NoRequest → String
  | misuse => ""
  | help => helpText
  | version => versionText

def exitCode : NoRequest → Nat
  | misuse => 2
  | help => 0
  | version => 0

end NoRequest

namespace FileTree

/-- Writes the file of a result if it has one. -/
def writeOutput (t : FileTree) : Option OutputFile → Except Failure Unit × FileTree
  | none => (.ok (), t)
  | some file =>
      let (written, left) := t.write file.path file.content
      (written.mapError file.failure, left)

/-- Uses the command line on these files. A failure to write may leave directories behind, any other
leaves all as it was. -/
def use (t : FileTree) (arguments : List String) (environment : Option String) : Ending :=
  let failed (failure : Failure) (left : FileTree) : Ending :=
    ⟨failure.exitCode, "", some failure, none, left⟩
  match Request.ofArguments arguments environment with
  | .error answer => ⟨answer.exitCode, answer.printed, none, none, t⟩
  | .ok request =>
      match request.execute t.reading with
      | .error failure => failed failure t
      | .ok product =>
          match t.writeOutput product.file with
          | (.error failure, left) => failed failure left
          | (.ok _, after) => ⟨0, product.printed, none, product.file.bind OutputFile.note, after⟩

end FileTree

end ModuleRecovery
