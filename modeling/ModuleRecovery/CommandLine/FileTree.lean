import ModuleRecovery.Text

/-!
Files as a command sees them: a tree of directories below the one it works in. A path is walked
name by name, and all that stands before a name has to be a directory that may be searched. To
write a file may fail after directories were made for it; the tree keeps them.
-/

namespace ModuleRecovery

/-- What the system says of a file that cannot be used. -/
inductive FileError where
  | system (description : String) (code : Nat)
  | notText
  deriving DecidableEq, Repr

namespace FileError

def notFound : FileError := system "No such file or directory" 2

def alreadyExists : FileError := system "File exists" 17

def notDirectory : FileError := system "Not a directory" 20

def isDirectory : FileError := system "Is a directory" 21

def refused : FileError := system "Permission denied" 13

def message : FileError → String
  | system description code => description ++ " (os error " ++ toString code ++ ")"
  | notText => "stream did not contain valid UTF-8"

end FileError

/-- What is in a file. One that holds no text is of no use to a command, whatever it holds. -/
inductive FileContent where
  | text (content : String)
  | notText
  deriving DecidableEq, Repr

def FileContent.asText : FileContent → Except FileError String
  | text content => .ok content
  | notText => .error .notText

/-- What can be done with a file or a directory: a directory is read by listing it, written by
making something in it, and searched by walking through it. -/
inductive Access where
  | read
  | write
  | search
  deriving DecidableEq, Repr

/-- The files of a tree with their contents, and directories that are there besides those the
files are in. All are known by the names that lead to them, and so is what the system refuses. -/
structure FileTree where
  files : List (List String × FileContent)
  directories : List (List String)
  refused : List (List String × Access)
  deriving DecidableEq, Repr

/-- What can be found out of a path: whether there is anything, and the text of a file. -/
structure Reading where
  isThere : String → Bool
  text : String → Except FileError String

namespace FileTree

/-- Where a walk has come to. Above the tree there are directories, of whose contents nothing is
known. -/
inductive Place where
  | inside (path : List String)
  | above
  | unknown
  deriving DecidableEq, Repr

/-- The place that a name leads to from a directory. -/
def Place.step (place : Place) (name : String) : Place :=
  if name = "" ∨ name = "." then place
  else
    match place with
    | inside [] => if name = ".." then above else inside [name]
    | inside path => if name = ".." then inside path.dropLast else inside (path ++ [name])
    | above => if name = ".." then above else unknown
    | unknown => unknown

/-- The names of a path. -/
def names (path : String) : List String := (Text.pieces '/' path.toList).map String.ofList

/-- Where the walk along a path starts: above the tree if the path starts with a slash. -/
def origin (path : String) : Place :=
  if path.toList.head? = some '/' then .above else .inside []

/-- The names that count: blank ones and single dots lead nowhere. -/
def properNames (path : String) : List String :=
  (names path).filter fun name => name ≠ "" ∧ name ≠ "."

/-- The tree with these files, in which everything is allowed. -/
def ofFiles (files : List (String × String)) : FileTree where
  files := files.map fun (path, content) => (names path, .text content)
  directories := []
  refused := []

/-- The tree with further directories. -/
def withDirectories (t : FileTree) (made : List (List String)) : FileTree :=
  { t with directories := made ++ t.directories }

def content? (t : FileTree) (path : List String) : Option FileContent := t.files.lookup path

def hasDirectory (t : FileTree) (path : List String) : Bool :=
  path = [] || t.directories.contains path ||
    t.files.any fun file => path.isPrefixOf file.1 && path.length < file.1.length

def isDirectoryAt (t : FileTree) : Place → Bool
  | .inside path => t.hasDirectory path
  | .above => true
  | .unknown => false

def isFileAt (t : FileTree) : Place → Bool
  | .inside path => (t.content? path).isSome
  | _ => false

/-- Nothing is refused above the tree. -/
def allows (t : FileTree) (access : Access) : Place → Bool
  | .inside path => !t.refused.contains (path, access)
  | _ => true

/-- Walks along names. Where the walk ends there may be nothing. -/
def walk (t : FileTree) (place : Place) : List String → Except FileError Place
  | [] => .ok place
  | name :: rest =>
      if t.isDirectoryAt place then
        if name = "" ∨ t.allows .search place then t.walk (place.step name) rest
        else .error .refused
      else if t.isFileAt place then .error .notDirectory
      else .error .notFound

/-- Whether a path leads to anything. -/
def isThere (t : FileTree) (path : String) : Bool :=
  match t.walk (origin path) (names path) with
  | .error _ => false
  | .ok place => t.isDirectoryAt place || t.isFileAt place

/-- The text of the file at a path. -/
def read (t : FileTree) (path : String) : Except FileError String :=
  match t.walk (origin path) (names path) with
  | .error e => .error e
  | .ok place =>
      if t.isDirectoryAt place then
        .error (if t.allows .read place then .isDirectory else .refused)
      else
        match place with
        | .inside path =>
            match t.content? path with
            | some content => if t.allows .read place then content.asText else .error .refused
            | none => .error .notFound
        | _ => .error .notFound

def reading (t : FileTree) : Reading := ⟨t.isThere, t.read⟩

/-- Makes one directory. -/
def makeDirectory (t : FileTree) (start : Place) (names : List String) :
    Except FileError FileTree :=
  match t.walk start names with
  | .error e => .error e
  | .ok place =>
      if t.isDirectoryAt place || t.isFileAt place then .error .alreadyExists
      else
        match place with
        | .inside path =>
            if t.allows .write (.inside path.dropLast) then .ok (t.withDirectories [path])
            else .error .refused
        | _ => .error .notFound

/-- What is left of a failure to make a directory: none if the directory is there. -/
def forgive (t : FileTree) (start : Place) (names : List String) (error : FileError) :
    Except FileError Unit :=
  match t.walk start names with
  | .ok place => if t.isDirectoryAt place then .ok () else .error error
  | .error _ => .error error

/-- Makes a directory and those above it that are missing; its names are given from the last to
the first. Tells whether the directory is there then, and gives the tree with all that were
made. -/
def makeDirectories (t : FileTree) (start : Place) : List String → Except FileError Unit × FileTree
  | [] => (.ok (), t)
  | name :: above =>
      let names := (name :: above).reverse
      match t.makeDirectory start names with
      | .ok made => (.ok (), made)
      | .error e =>
          if e = .notFound then
            match t.makeDirectories start above with
            | (.error e, left) => (.error e, left)
            | (.ok _, left) =>
                match left.makeDirectory start names with
                | .ok made => (.ok (), made)
                | .error e => (left.forgive start names e, left)
          else (t.forgive start names e, t)

/-- Puts a text into the file at a path, in place of what it held. Of a new file the directory has
to allow it. -/
def put (t : FileTree) (path : List String) (content : String) : Except FileError FileTree :=
  let touched := if t.isFileAt (.inside path) then path else path.dropLast
  if t.allows .write (.inside touched) then
    .ok { t with files := (path, .text content) :: t.files.filter fun file => file.1 ≠ path }
  else .error .refused

/-- Puts a text into the file that names lead to. After a slash at the end they name no file. -/
def putAt (t : FileTree) (start : Place) (names : List String) (slash : Bool) (content : String) :
    Except FileError FileTree :=
  match t.walk start names with
  | .error e => .error e
  | .ok place =>
      if t.isDirectoryAt place || slash then .error .isDirectory
      else
        match place with
        | .inside path => t.put path content
        | _ => .error .notFound

/-- Writes a file and makes the directories that lead to it. Those that were made stay if the rest
fails. -/
def write (t : FileTree) (path content : String) : Except FileError Unit × FileTree :=
  let start := origin path
  let given := (names path).reverse
  let last := given.dropWhile (· = "")
  match t.makeDirectories start ((properNames path).reverse.drop 1) with
  | (.error e, left) => (.error e, left)
  | (.ok _, left) =>
      match left.putAt start last.reverse (last ≠ given) content with
      | .error e => (.error e, left)
      | .ok after => (.ok (), after)

/-- The texts that were written: those of files that are not in `before` with the same one. -/
def changes (before after : FileTree) : List (String × String) :=
  after.files.filterMap fun (path, content) =>
    match content with
    | .text written =>
        if before.content? path = some content then none
        else some ("/".intercalate path, written)
    | .notText => none

end FileTree

end ModuleRecovery
