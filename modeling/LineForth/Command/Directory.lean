import LineForth.Input.Stream

/-!
# A working directory

Files and directories below one working directory, looked up by relative paths.
Of what lies above it only this is known: it is a directory, and no name is found
in it.
-/

set_option autoImplicit false

namespace LineForth

/-- The steps of a path below the working directory. -/
abbrev Path := List Bytes

structure Directory where
  files : List (Path × Bytes)
  directories : List Path
  deriving DecidableEq, Repr

/-- What stands at a path. -/
inductive Node where
  | file (path : Path) (content : Bytes)
  | directory (path : Path)
  | above
  deriving DecidableEq, Repr

namespace Directory

def slash : UInt8 := 0x2F

def noEntry : Bytes := text "no such file or directory"

def notDirectory : Bytes := text "not a directory"

def isDirectory : Bytes := text "is a directory"

def nameTooLong : Bytes := text "file name too long"

def invalidArgument : Bytes := text "invalid argument"

def longestName : Nat := 255

def longestPath : Nat := 4095

def here : Bytes := text "."

def parent : Bytes := text ".."

/-- A directory exists if it was made or if something was put below it. -/
def hasDirectory (directory : Directory) (path : Path) : Bool :=
  directory.directories.any (fun made => path.isPrefixOf made) ||
    directory.files.any (fun (file, _) => path.isPrefixOf file && path ≠ file)

/-- The node of a name in a directory. -/
def child (directory : Directory) (path : Path) (name : Bytes) : Except Bytes Node :=
  if longestName < name.length then .error nameTooLong
  else
    let below := path ++ [name]
    match directory.files.lookup below with
    | some content => .ok (.file below content)
    | none => if directory.hasDirectory below then .ok (.directory below) else .error noEntry

def stepFrom (directory : Directory) (node : Node) (name : Bytes) : Except Bytes Node :=
  match node with
  | .file _ _ => .error notDirectory
  | .above =>
    if name.isEmpty ∨ name = here ∨ name = parent then .ok .above
    else if longestName < name.length then .error nameTooLong
    else .error noEntry
  | .directory path =>
    if name.isEmpty ∨ name = here then .ok node
    else if name = parent then
      .ok (if path.isEmpty then .above else .directory path.dropLast)
    else directory.child path name

def walk (directory : Directory) : Node → List Bytes → Except Bytes Node
  | node, [] => .ok node
  | node, name :: rest =>
    match directory.stepFrom node name with
    | .ok next => walk directory next rest
    | .error reason => .error reason

/-- The node where a walk starts, and the names it goes through. -/
def route (path : Bytes) : Node × List Bytes :=
  let start := if path.head? = some slash then Node.above else Node.directory []
  (start, Bytes.fields slash path)

def checked (path : Bytes) : Except Bytes Unit :=
  if path.contains 0 then .error invalidArgument
  else if path.isEmpty then .error noEntry
  else if longestPath < path.length then .error nameTooLong
  else .ok ()

def openFailure (path reason : Bytes) : Failure :=
  .context (text "open " ++ path) (.other reason)

/-- What stands at a path. -/
def find (directory : Directory) (path : Bytes) : Except Failure Node :=
  match checked path with
  | .error reason => .error (openFailure path reason)
  | .ok _ =>
    let (start, names) := route path
    match directory.walk start names with
    | .ok node => .ok node
    | .error reason => .error (openFailure path reason)

def readFailure (name : Bytes) : Failure :=
  .context (text "read " ++ name) (.other isDirectory)

/-- What is read from an opened file. A directory can be opened but not read. -/
def streamOf (name : Bytes) : Node → Stream
  | .file _ content => ⟨name, content, 0, .failure .endOfInput, .closes none⟩
  | _ => ⟨name, [], 0, .failure (readFailure name), .closes none⟩

/-- Opens a path for reading. -/
def openFile (directory : Directory) (path : Bytes) : Except Failure Stream :=
  (directory.find path).map (streamOf path)

def putFile (directory : Directory) (path : Path) (content : Bytes) : Directory :=
  if (directory.files.lookup path).isSome then
    { directory with
      files := directory.files.map fun (file, old) =>
        if file = path then (file, content) else (file, old) }
  else { directory with files := directory.files ++ [(path, content)] }

/-- Where a new file would stand. The last name must be one that a file can have. -/
def place (directory : Directory) (node : Node) (name : Bytes) : Except Bytes (Option Path) :=
  match node with
  | .file _ _ => .error notDirectory
  | .above =>
    if name.isEmpty ∨ name = here ∨ name = parent then .error isDirectory else .ok none
  | .directory path =>
    if name.isEmpty ∨ name = here ∨ name = parent then .error isDirectory
    else
      match directory.child path name with
      | .ok (.directory _) => .error isDirectory
      | .ok _ => .ok (some (path ++ [name]))
      | .error reason => if reason = noEntry then .ok (some (path ++ [name])) else .error reason

/-- Creates or replaces a file with the given content. A path that ends in a slash
names a directory. -/
def createFile (directory : Directory) (path content : Bytes) :
    Except Failure Unit × Directory :=
  let located := do
    checked path
    let (start, names) := route path
    let solid := (names.reverse.dropWhile List.isEmpty).reverse
    let node ← directory.walk start solid.dropLast
    if path.getLast? = some slash then throw isDirectory
    directory.place node (solid.getLast?.getD [])
  match located with
  | .error reason => (.error (openFailure path reason), directory)
  | .ok none => (.ok (), directory)
  | .ok (some place) => (.ok (), directory.putFile place content)

/-- The files that stand directly in the working directory. -/
def topFiles (directory : Directory) : List (Bytes × Bytes) :=
  directory.files.filterMap fun (path, content) =>
    match path with
    | [name] => some (name, content)
    | _ => none

def ofNames (files : List (Bytes × Bytes)) (directories : List Bytes) : Directory where
  files := files.map fun (name, content) => (Bytes.fields slash name, content)
  directories := directories.map (Bytes.fields slash)

end Directory

end LineForth
