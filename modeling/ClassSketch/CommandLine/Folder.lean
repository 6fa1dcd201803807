import ClassSketch.CommandLine.Host

/-!
# The working directory

`Folder` is the file system as a run sees it from its working directory: the
known files, by place. A path is followed part by part, so that a file in the
place of a directory and a directory in the place of a file are told apart from
what does not exist. `Folder.host` is the machine with such files.

The parts of a path and the whole path are limited in length, counted in
bytes. A place is a list of parts. It may start with double dots, for what lies
above the working directory, or with the root.
-/

namespace ClassSketch.CommandLine

/-- Files by their places, and directories. A directory also exists when a file
lies in it; the working directory and all that are above it exist in any case. -/
structure Folder where
  files : List (List String × List UInt8) := []
  directories : List (List String) := []

namespace Folder

/-- What a path leads to. -/
inductive Place where
  | directory (parts : List String)
  | file (parts : List String) (bytes : List UInt8)
  /-- Nothing, in a directory that exists. -/
  | vacant (parts : List String)
  | fault (f : PathFault)

/-- What `name` is in a directory. -/
def enter (folder : Folder) (dir : List String) (name : String) : Place :=
  let parts := dir ++ [name]
  match folder.files.lookup parts with
  | some bytes => .file parts bytes
  | none =>
    if folder.directories.contains parts || folder.files.any fun f => parts.isPrefixOf f.1 then
      .directory parts
    else .vacant parts

/-- The root, as the first part of a place. -/
def rootPart : String :=
  "/"

/-- The directory above; the root is above itself. -/
def above (dir : List String) : List String :=
  match dir.getLast? with
  | none => [".."]
  | some last =>
    if last = ".." then dir ++ [".."] else if last = rootPart then dir else dir.dropLast

/-- The bytes that one part of a path may have. -/
def maxName : Nat :=
  255

/-- The bytes that a path may have. -/
def maxPath : Nat :=
  4095

/-- What a usual system has at its root: its directories, and the null device,
which is empty. -/
def system : Folder where
  files := [([rootPart, "dev", "null"], [])]
  directories := ["bin", "boot", "dev", "etc", "home", "lib", "media", "mnt", "opt", "proc",
    "root", "run", "sbin", "srv", "sys", "tmp", "usr", "var"].map fun name => [rootPart, name]

/-- One more part of a path. -/
def follow (folder : Folder) (place : Place) (name : String) : Place :=
  match place with
  | .directory dir =>
    if name = ".." then .directory (above dir)
    else if maxName < name.utf8ByteSize then .fault .nameTooLong
    else folder.enter dir name
  | .file .. => .fault .notADirectory
  | .vacant _ => .fault .notFound
  | .fault f => .fault f

def locate (folder : Folder) (p : Path) : Place :=
  if !p.isLegal then .fault .nullCharacter
  else if maxPath < p.render.utf8ByteSize then .fault .nameTooLong
  else p.parts.foldl folder.follow (.directory (if p.root = "" then [] else [rootPart]))

def read (folder : Folder) (p : Path) : Except PathFault (List UInt8) :=
  match folder.locate p with
  | .file _ bytes => .ok bytes
  | .directory _ => .error .isADirectory
  | .vacant _ => .error .notFound
  | .fault f => .error f

/-- Replaces a file, or puts a new one at the end. -/
def put (folder : Folder) (parts : List String) (bytes : List UInt8) : Folder :=
  if folder.files.any fun f => f.1 == parts then
    { folder with files := folder.files.map fun f => if f.1 = parts then (parts, bytes) else f }
  else { folder with files := folder.files ++ [(parts, bytes)] }

/-- Opens a file for writing, which is empty then. -/
def create (folder : Folder) (p : Path) : Except PathFault (List String × Folder) :=
  match folder.locate p with
  | .file parts _ => .ok (parts, folder.put parts [])
  | .vacant parts => .ok (parts, folder.put parts [])
  | .directory _ => .error .isADirectory
  | .fault f => .error f

/-- A machine whose files are those of a folder. What can be opened can be written. Every text
can be encoded, unless something else is asked for. -/
def host (memory : Nat) (encodeFault? : String → Option EncodeFault := fun _ => none) : Host where
  memory := memory
  Files := Folder
  Place := List String
  Rest := List (List String)
  content := fun folder parts => folder.files.lookup parts
  rest := directories
  read := read
  create := create
  encodeFault? := encodeFault?
  write := fun folder parts bytes => (none, folder.put parts bytes)

/-- Whether a place lies in the working directory. -/
def isInside (parts : List String) : Bool :=
  parts.head? != some ".." && parts.head? != some rootPart

end Folder

end ClassSketch.CommandLine
