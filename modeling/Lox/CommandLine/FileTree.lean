/-!
Files and directories, as far as reading a script needs them.
-/

namespace Lox

/-- Why a file cannot be read. -/
inductive ReadError where
  | missing
  | isDirectory
  | notDirectory
  | nameTooLong
  /-- A reason that the system gives in its own words. -/
  | system (message : String)
  deriving DecidableEq, Repr

def ReadError.message : ReadError → String
  | .missing => "No such file or directory"
  | .isDirectory => "Is a directory"
  | .notDirectory => "Not a directory"
  | .nameTooLong => "File name too long"
  | .system message => message

/-- The files and directories below a working directory, by the names on the way to them. -/
structure FileTree where
  files : List (List String × ByteArray)
  directories : List (List String)

namespace FileTree

/-- The names of a path.  Empty names and the present directory add nothing to it. -/
def names (path : String) : List String :=
  (path.splitOn "/").filter fun name => name != "" && name != "."

/-- The most bytes that a name in a directory can have. -/
def maxNameSize : Nat := 255

/-- The most bytes that a path can have. -/
def maxPathSize : Nat := 4095

/-- How many bytes a path has when it is spelled with its names alone. -/
def pathSize (path : String) : Nat :=
  let slashes := (path.toList.takeWhile (· == '/')).length
  let root := if slashes = 0 then "" else if slashes = 2 then "//" else "/"
  (root ++ "/".intercalate (names path)).utf8ByteSize

/-- What a path leads to. -/
inductive Place where
  /-- A directory that holds or is the working directory, or is in no relation to it. -/
  | outside
  | directory (names : List String)
  | file (bytes : ByteArray)

def isDirectory (tree : FileTree) (names : List String) : Bool :=
  names.isEmpty || tree.directories.any (names.isPrefixOf ·) ||
    tree.files.any fun (file, _) => names.isPrefixOf file && names.length < file.length

def lookUp (tree : FileTree) (names : List String) : Except ReadError Place :=
  match tree.files.lookup names with
  | some bytes => .ok (.file bytes)
  | none => if tree.isDirectory names then .ok (.directory names) else .error .missing

/-- Follows one name of a path. -/
def follow (tree : FileTree) (name : String) : Place → Except ReadError Place
  | .file _ => .error .notDirectory
  | .outside =>
    if maxNameSize < name.utf8ByteSize then .error .nameTooLong
    else if name = ".." then .ok .outside
    else .error .missing
  | .directory names =>
    if maxNameSize < name.utf8ByteSize then .error .nameTooLong
    else if name = ".." then
      if names.isEmpty then .ok .outside else .ok (.directory names.dropLast)
    else tree.lookUp (names ++ [name])

/-- The bytes of the file at a path. -/
def read (tree : FileTree) (path : String) : Except ReadError ByteArray := do
  if maxPathSize < pathSize path then throw .nameTooLong
  let start : Place := if path.startsWith "/" then .outside else .directory []
  match ← (names path).foldlM (fun place name => tree.follow name place) start with
  | .file bytes => .ok bytes
  | _ => .error .isDirectory

end FileTree

end Lox
