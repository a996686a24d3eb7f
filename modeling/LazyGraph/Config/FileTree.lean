/-!
Files and directories, and what stands in the way of reading a file.
-/

namespace LazyGraph

/-- A file without contents holds something that is no text. -/
inductive FileTree
  | directory (entries : List (String × FileTree))
  | file (contents : Option String)

inductive ReadError
  | notFound
  | notADirectory
  | isDirectory
  | nameTooLong
  | zeroByte
  | notText
  deriving DecidableEq

def ReadError.message : ReadError → String
  | .notFound => "No such file or directory (os error 2)"
  | .notADirectory => "Not a directory (os error 20)"
  | .isDirectory => "Is a directory (os error 21)"
  | .nameTooLong => "File name too long (os error 36)"
  | .zeroByte => "file name contained an unexpected NUL byte"
  | .notText => "stream did not contain valid UTF-8"

namespace FileTree

/-- A place in a tree: what is there, and the directories above it, the nearest first. -/
structure Place where
  here : FileTree
  above : List FileTree

def Place.step (p : Place) (name : String) : Except ReadError Place :=
  match p.here with
  | .file _ => .error .notADirectory
  | .directory entries =>
    if name = "" || name = "." then .ok p
    else if name = ".." then
      match p.above with
      | [] => .ok p
      | parent :: above => .ok ⟨parent, above⟩
    else if 255 < name.utf8ByteSize then .error .nameTooLong
    else
      match entries.lookup name with
      | some tree => .ok ⟨tree, p.here :: p.above⟩
      | none => .error .notFound

def resolve (root current : Place) (path : String) : Except ReadError Place :=
  if path.toList.contains '\x00' then .error .zeroByte
  else if path = "" then .error .notFound
  else if 4096 ≤ path.utf8ByteSize then .error .nameTooLong
  else (path.splitOn "/").foldlM Place.step (if path.startsWith "/" then root else current)

def read (root current : Place) (path : String) : Except ReadError String :=
  match resolve root current path with
  | .error e => .error e
  | .ok ⟨.directory _, _⟩ => .error .isDirectory
  | .ok ⟨.file none, _⟩ => .error .notText
  | .ok ⟨.file (some text), _⟩ => .ok text

/-! ## A system without configuration files -/

def bare (names : List String) : FileTree :=
  .directory (names.map fun name => (name, .directory []))

def programs : FileTree :=
  .directory (["bash", "cat", "env", "ls", "sh", "true"].map fun name => (name, .file none))

def standard : FileTree :=
  .directory
    [("bin", programs),
      ("boot", bare []),
      ("dev", .directory
        [("fd", bare []), ("full", .file none), ("null", .file (some "")), ("random", .file none),
          ("shm", bare []), ("urandom", .file none), ("zero", .file none)]),
      ("etc", .directory
        [("group", .file (some "root:x:0:\n")), ("hostname", .file (some "localhost\n")),
          ("hosts", .file (some "127.0.0.1 localhost\n")),
          ("passwd", .file (some "root:x:0:0:root:/root:/bin/sh\n"))]),
      ("home", bare []),
      ("lib", bare []),
      ("media", bare []),
      ("mnt", bare []),
      ("opt", bare []),
      ("proc", bare ["self", "sys"]),
      ("root", bare []),
      ("run", bare ["lock"]),
      ("sbin", bare []),
      ("srv", bare []),
      ("sys", bare ["class", "dev", "devices", "kernel"]),
      ("tmp", bare []),
      ("usr", .directory
        [("bin", programs), ("include", bare []), ("lib", bare []), ("local", bare ["bin", "lib"]),
          ("sbin", bare []), ("share", bare []), ("src", bare [])]),
      ("var", bare ["cache", "lib", "log", "run", "spool", "tmp"])]

def readStandard (path : String) : Except ReadError String :=
  let root : Place := ⟨standard, []⟩
  read root ⟨.directory [], [standard]⟩ path

end FileTree

end LazyGraph
