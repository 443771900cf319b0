import ArmStream.Driver.Error
import ArmStream.Text.Split

/-!
# Files in memory

A tree of files and directories for trying out a program, and what reading a path in it gives. A
path is a walk from the root or from the working directory, one name after the other; only a
directory can be walked through. A slash at the end asks for a directory too.

## Main definitions

- `Node`: a file or a directory with what is in it.
- `Place`: a node and the directories above it.
- `Place.read`: the contents of the file that a path leads to.
- `workplace`: a fresh working directory in a usual system.
-/

namespace ArmStream.Simulation

inductive Node where
  | file (contents : Bytes)
  | directory (entries : List (String × Node))
  deriving Repr, Inhabited

/-- A node and the directories above it, the nearest first. -/
structure Place where
  node : Node
  above : List Node := []
  deriving Repr, Inhabited

namespace Place

def longestName : Nat := 255

def longestPath : Nat := 4095

/-- The directory above. There is none above the root, which stands for itself there. -/
def up (p : Place) : Place :=
  match p.above with
  | [] => p
  | parent :: above => ⟨parent, above⟩

def root (p : Place) : Place := ⟨p.above.getLast?.getD p.node, []⟩

/-- The step to a name in a directory. No name, as between two slashes, stays in place. -/
def enter (p : Place) (name : String) : Except IoError Place :=
  match p.node with
  | .file _ => .error .notDirectory
  | .directory entries =>
    if name.isEmpty || name = "." then .ok p
    else if name = ".." then .ok p.up
    else if longestName < name.utf8ByteSize then .error .nameTooLong
    else
      match entries.lookup name with
      | none => .error .noSuchFile
      | some node => .ok ⟨node, p.node :: p.above⟩

def follow (p : Place) : List String → Except IoError Place
  | [] => .ok p
  | name :: rest =>
    match p.enter name with
    | .error e => .error e
    | .ok q => q.follow rest

def find (p : Place) (path : String) : Except IoError Place :=
  if path.isEmpty then .error .noSuchFile
  else if longestPath < path.utf8ByteSize then .error .nameTooLong
  else
    let start := if path.toList.head? = some '/' then p.root else p
    start.follow ((Text.pieces '/' path.toList).map String.ofList)

def read (p : Place) (path : String) : Except IoError Bytes :=
  match p.find path with
  | .error e => .error e
  | .ok ⟨.file contents, _⟩ => .ok contents
  | .ok ⟨.directory _, _⟩ => .error .isDirectory

end Place

/-- A directory of the system whose contents do not matter. -/
def plainDirectory (name : String) : String × Node := (name, .directory [])

/-- The devices that can be read to an end have nothing in them. -/
def devices : Node :=
  .directory [("null", .file #[]), ("stdin", .file #[]), plainDirectory "fd", plainDirectory "shm"]

def settings : Node :=
  .directory [
    ("passwd", .file "root:x:0:0:root:/root:/bin/sh\n".toUTF8.data),
    ("hosts", .file "127.0.0.1\tlocalhost\n".toUTF8.data)]

/-- A working directory with the given files, two steps below the root of a usual system. -/
def workplace (files : List (String × Bytes)) : Place :=
  let here := Node.directory (files.map fun (name, contents) => (name, .file contents))
  let temporary := Node.directory [("work", here)]
  let system := Node.directory
    ([("dev", devices), ("etc", settings), ("tmp", temporary)] ++
      ["bin", "boot", "home", "lib", "lib64", "media", "mnt", "opt", "proc", "root", "run", "sbin",
        "srv", "sys", "usr", "var"].map plainDirectory)
  ⟨here, [temporary, system]⟩

end ArmStream.Simulation
