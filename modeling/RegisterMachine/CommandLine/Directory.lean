/-!
# Directories of files

A directory of named files as a value, with the reading of a path as seen from within it, so that
runs of the program can be considered without touching a disk.
-/

namespace RegisterMachine

namespace CommandLine

/-- Why a file could not be read, as the operating system puts it. -/
structure ReadError where
  reason : String
  number : Nat
  deriving DecidableEq, Repr

namespace ReadError

/-- The text of a read error. -/
def message (e : ReadError) : String :=
  e.reason ++ " (os error " ++ toString e.number ++ ")"

/-- The path leads nowhere. -/
def notFound : ReadError := ⟨"No such file or directory", 2⟩

/-- The path goes on beyond a file. -/
def notDirectory : ReadError := ⟨"Not a directory", 20⟩

/-- The path leads to a directory. -/
def isDirectory : ReadError := ⟨"Is a directory", 21⟩

/-- The path, or a name in it, is longer than any that there can be. -/
def nameTooLong : ReadError := ⟨"File name too long", 36⟩

end ReadError

/-- A directory that holds files and no other directories. -/
structure Directory where
  /-- The files, by name. -/
  files : List (String × ByteArray)

namespace Directory

/-- Where a path has led so far. -/
inductive Place where
  /-- To the directory itself. -/
  | here
  /-- Out of the directory; nothing is known of what is there but that it is directories. -/
  | outside
  /-- To a file with this content. -/
  | file (content : ByteArray)

/-- The place that a name leads to from another place. -/
def enter (d : Directory) (name : String) : Place → Except ReadError Place
  | .file _ => .error .notDirectory
  | place =>
    if name = "" ∨ name = "." then .ok place
    else if name = ".." then .ok .outside
    else if 255 < name.utf8ByteSize then .error .nameTooLong
    else
      match place, d.files.lookup name with
      | .here, some content => .ok (.file content)
      | _, _ => .error .notFound

/-- The place that a path leads to, given by its names. -/
def walk (d : Directory) (place : Place) : List String → Except ReadError Place
  | [] => .ok place
  | name :: names => do
    let next ← d.enter name place
    d.walk next names

/-- The content of the file that a path leads to.  A path that begins with a slash begins outside,
and one that ends with a slash leads to no file. -/
def read (d : Directory) (path : String) : Except ReadError ByteArray :=
  if path = "" then .error .notFound
  else if 4096 ≤ path.utf8ByteSize then .error .nameTooLong
  else do
    let start := if path.startsWith "/" then Place.outside else Place.here
    match ← d.walk start (path.splitOn "/") with
    | .file content => .ok content
    | _ => .error .isDirectory

end Directory

end CommandLine

end RegisterMachine
