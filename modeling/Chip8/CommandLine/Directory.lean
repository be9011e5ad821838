/-
Chip8.CommandLine.Directory — reading a file by its path from a set of
files.

A path is a list of names with slashes between them; an empty name and a
single point stand for the same place, two points for the place above. A
path leads from place to place (`Directory.walk`): through the set of
files, and through the few places that every file hierarchy has
(`standardDirectories`). The set of files has a directory of its own among
the temporary files of the hierarchy, so a path that goes up from it comes
to the root.
Reading fails for a path that names nothing, that names a directory, that
goes on below a file, or that is too long as a whole or in one name.
-/
import Chip8.Text.Quoted

namespace Chip8.CommandLine

/-- Why a file cannot be read. -/
inductive FileError where
  | missing (path : String)
  | isDirectory (path : String)
  | notDirectory (path : String)
  | tooLong (path : String)
  | nullCharacter
deriving DecidableEq, Repr

/-- The sentence that describes why a file cannot be read. -/
def FileError.message : FileError → String
  | .missing path => "[Errno 2] No such file or directory: " ++ Text.quoted path
  | .isDirectory path => "[Errno 21] Is a directory: " ++ Text.quoted path
  | .notDirectory path => "[Errno 20] Not a directory: " ++ Text.quoted path
  | .tooLong path => "[Errno 36] File name too long: " ++ Text.quoted path
  | .nullCharacter => "embedded null byte"

/-- The files of a directory by their paths. -/
structure Directory where
  files : List (String × List UInt8)

/-- Where a path has led so far. -/
inductive Place where
  /-- The directory of the files, or one below it. -/
  | inside (names : List String)
  /-- The root of the file hierarchy, or a directory below it. -/
  | rooted (names : List String)
deriving DecidableEq, Repr

/-- The directory of the temporary files, where the directory of the files stands. -/
def temporaryDirectory : List String := ["tmp"]

/-- The place above a place; the root lies above itself. -/
def Place.parent : Place → Place
  | .inside [] => .rooted temporaryDirectory
  | .inside names => .inside names.dropLast
  | .rooted names => .rooted names.dropLast

/-- What a name stands for at a place. -/
inductive Entry where
  | file (bytes : List UInt8)
  | directory (place : Place)
  | absent
deriving DecidableEq, Repr

/-- The directories that every file hierarchy has, by their names from the root on. -/
def standardDirectories : List (List String) :=
  ["bin", "boot", "dev", "etc", "home", "lib", "media", "mnt", "opt", "proc", "root", "run",
   "sbin", "srv", "sys", "tmp", "usr", "var"].map (fun n => [n]) ++
  ["pts", "shm"].map (fun n => ["dev", n]) ++
  ["bin", "include", "lib", "local", "sbin", "share", "src"].map (fun n => ["usr", n]) ++
  ["cache", "lib", "local", "log", "opt", "spool", "tmp"].map (fun n => ["var", n])

/-- The device that reads as an empty file. -/
def nullDevice : List String := ["dev", "null"]

namespace Directory

/-- The most bytes a name may have. -/
def nameLimit : Nat := 255

/-- The most bytes a path may have. -/
def pathLimit : Nat := 4095

/-- The names on a path. -/
def names (path : String) : List String :=
  (path.splitOn "/").filter fun n => n != "" && n != "."

/-- The bytes of the file whose path has these names. -/
def file? (d : Directory) (place : List String) : Option (List UInt8) :=
  (d.files.find? fun f => names f.1 == place).map (·.2)

/-- Whether a directory has a path with these names: some file lies below it. -/
def holds (d : Directory) (place : List String) : Bool :=
  d.files.any fun f => place.isPrefixOf (names f.1) && place.length < (names f.1).length

/-- What a name stands for at a place. -/
def entry (d : Directory) (n : String) : Place → Entry
  | .inside place =>
    match d.file? (place ++ [n]) with
    | some bytes => .file bytes
    | none => if d.holds (place ++ [n]) then .directory (.inside (place ++ [n])) else .absent
  | .rooted place =>
    if place ++ [n] = nullDevice then .file []
    else if standardDirectories.contains (place ++ [n]) then .directory (.rooted (place ++ [n]))
    else .absent

/-- Follow the names of a path from a place on. -/
def walk (d : Directory) (path : String) (place : Place) :
    List String → Except FileError (List UInt8)
  | [] => .error (.isDirectory path)
  | n :: rest =>
    if n == "" || n == "." then walk d path place rest
    else if n == ".." then walk d path place.parent rest
    else if nameLimit < n.utf8ByteSize then .error (.tooLong path)
    else
      match d.entry n place with
      | .file bytes => if rest.isEmpty then .ok bytes else .error (.notDirectory path)
      | .directory next => walk d path next rest
      | .absent => .error (.missing path)

/-- The bytes of the file at a path. -/
def read (d : Directory) (path : String) : Except FileError (List UInt8) :=
  if path.contains '\x00' then .error .nullCharacter
  else if pathLimit < path.utf8ByteSize then .error (.tooLong path)
  else
    let start : Place := if path.startsWith "/" then .rooted [] else .inside []
    d.walk path start (path.splitOn "/")

end Directory

end Chip8.CommandLine
