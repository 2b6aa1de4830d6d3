import ModuleRecovery.CommandLine.Session

/-!
The program on the files of the system: it reads what a request names, and carries out what the
request comes to.
-/

namespace ModuleRecovery

/-- What the system says under a number. Some of its parts count downwards from zero. -/
def FileError.ofCode (code : UInt32) (detail : String) : FileError :=
  let n := if code.toNat < 0x80000000 then code.toNat else 0x100000000 - code.toNat
  match n with
  | 2 => notFound
  | 13 => refused
  | 17 => alreadyExists
  | 20 => notDirectory
  | 21 => isDirectory
  | _ => system detail n

/-- What the system says when it refuses a file. -/
def FileError.ofSystem : IO.Error → FileError
  | .noFileOrDirectory _ code detail => ofCode code detail
  | .permissionDenied _ code detail => ofCode code detail
  | .alreadyExists _ code detail => ofCode code detail
  | .inappropriateType _ code detail => ofCode code detail
  | .resourceExhausted _ code detail => ofCode code detail
  | .invalidArgument _ code detail => ofCode code detail
  | .otherError code detail => ofCode code detail
  | .userError _ => notText
  | error => system error.toString 0

namespace Program

/-- The text of a file. -/
def readText (path : String) : IO (Except FileError String) := do
  try return .ok (← IO.FS.readFile path)
  catch error => return .error (.ofSystem error)

/-- Whether a path leads to anything. -/
def isThere (path : String) : IO Bool := do
  try
    discard (IO.FS.realPath path)
    return true
  catch _ => return false

/-- Makes one directory. -/
def makeDirectory (path : String) : IO (Except FileError Unit) := do
  try return .ok (← IO.FS.createDir path)
  catch error => return .error (.ofSystem error)

/-- What is left of a failure to make a directory: none if the directory is there. -/
def forgive (path : String) (error : FileError) : IO (Except FileError Unit) := do
  match ← readText path with
  | .error found => if found = .isDirectory then return .ok () else return .error error
  | .ok _ => return .error error

/-- Makes a directory below `root` and those above it that are missing; its names are given from
the last to the first. -/
def makeDirectories (root : String) : List String → IO (Except FileError Unit)
  | [] => return .ok ()
  | name :: above => do
      let path := root ++ "/".intercalate (name :: above).reverse
      match ← makeDirectory path with
      | .ok () => return .ok ()
      | .error e =>
          unless e = .notFound do return ← forgive path e
          match ← makeDirectories root above with
          | .error e => return .error e
          | .ok () =>
              match ← makeDirectory path with
              | .ok () => return .ok ()
              | .error e => forgive path e

/-- Writes a file and makes the directories that lead to it. -/
def writeText (path content : String) : IO (Except FileError Unit) := do
  let root := if FileTree.origin path = .above then "/" else ""
  match ← makeDirectories root ((FileTree.properNames path).reverse.drop 1) with
  | .error e => return .error e
  | .ok () =>
      try return .ok (← IO.FS.writeFile path content)
      catch error => return .error (.ofSystem error)

/-- Tells of a failure. -/
def fail (failure : Failure) : IO UInt32 := do
  IO.eprintln ("Error: " ++ failure.text)
  return failure.exitCode.toUInt32

/-- Carries out what a request has come to. -/
def deliver (request : Request) (product : Product) : IO UInt32 := do
  for entry in product.log do
    if request.tells entry.level then IO.eprintln entry.line
  if let some file := product.file then
    if let .error e ← writeText file.path file.content then return ← fail (file.failure e)
    if let some note := file.note then IO.eprintln note
  IO.print product.printed
  return 0

def run (request : Request) : IO UInt32 := do
  let look (path : String) := do return (← isThere path, ← readText path)
  let input ← look request.input
  let settings ← match request.settings with
    | some path => look path
    | none => pure input
  let found (path : String) := if path = request.input then input else settings
  match request.execute ⟨fun path => (found path).1, fun path => (found path).2⟩ with
  | .error failure => fail failure
  | .ok product => deliver request product

/-- Does what the arguments ask for. Misuse is answered with the help text. -/
def start (arguments : List String) : IO UInt32 := do
  match Request.ofArguments arguments (← IO.getEnv "ARCHMOD_CONFIG") with
  | .ok request => run request
  | .error answer =>
      if answer = .misuse then IO.eprint NoRequest.helpText
      IO.print answer.printed
      return answer.exitCode.toUInt32

end Program

end ModuleRecovery

def main (arguments : List String) : IO UInt32 := ModuleRecovery.Program.start arguments
