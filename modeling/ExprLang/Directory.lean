import ExprLang.Diagnostic.Render

/-!
# Files

A directory is a list of files by name. Reading a path gives a document, or says why there is none.
A path is followed part by part (`Directory.walk`), and the first part that leads nowhere decides
the reason: it is too long to be a name, nothing has that name, or it is looked for in a file.
-/

namespace ExprLang

/-- Why a file cannot be read as text. -/
inductive ReadError where
  | notFound
  | isDirectory
  | notADirectory
  | nameTooLong
  | nulInName
  | invalidText
deriving DecidableEq, Repr

/-- The reason in words. -/
def ReadError.message : ReadError → String
  | notFound => "No such file or directory (os error 2)"
  | isDirectory => "Is a directory (os error 21)"
  | notADirectory => "Not a directory (os error 20)"
  | nameTooLong => "File name too long (os error 36)"
  | nulInName => "file name contained an unexpected NUL byte"
  | invalidText => "stream did not contain valid UTF-8"

/-- The document of bytes that are UTF-8. -/
def Document.ofBytes? (path : String) (bytes : ByteArray) : Except ReadError Document :=
  match String.fromUTF8? bytes with
  | some text => .ok ⟨path, text⟩
  | none => .error .invalidText

/-- A file: its path from the directory, and its bytes. -/
structure File where
  name : String
  bytes : ByteArray

/-- The files of a directory. Of two files at one place the later one is there. -/
abbrev Directory := List File

/-- What a path leads to. -/
inductive Entry where
  | file (f : File)
  | directory

/-- Where a path leads. Of what is outside the directory only the directories that hold it are
known. -/
inductive Place where
  /-- A place inside the directory, by the names that lead to it. -/
  | inside (names : List String)
  /-- A directory that holds the directory. -/
  | above
  /-- A name in a directory that holds the directory. -/
  | elsewhere
deriving DecidableEq, Repr

namespace Path

/-- The parts of a path between slashes. -/
def parts (path : String) : List String := path.splitOn "/"

/-- Whether a part of a path leads nowhere else: an empty part, or a dot. -/
def isIdle (part : String) : Bool := part == "" || part == "."

/-- How many bytes a part of a path has at most. -/
def partLimit : Nat := 255

/-- How many bytes a path has at most. -/
def limit : Nat := 4095

/-- Where a path starts: a slash leads out of the directory. -/
def start (path : String) : Place :=
  match path.toList with
  | '/' :: _ => .above
  | _ => .inside []

end Path

namespace Place

/-- The place of a name in the directory at a place. -/
def child (place : Place) (name : String) : Place :=
  match place with
  | inside names => inside (names ++ [name])
  | above => elsewhere
  | elsewhere => elsewhere

/-- The directory that holds a place. -/
def parent : Place → Place
  | inside [] => above
  | inside names => inside names.dropLast
  | above => above
  | elsewhere => elsewhere

end Place

/-- The names that lead to a file. -/
def File.names (file : File) : List String :=
  (Path.parts file.name).filter fun part => !Path.isIdle part

namespace Directory

/-- What is at a place, if anything is. Names that lead on to a file are directories. -/
def entry? (dir : Directory) : Place → Option Entry
  | .above => some .directory
  | .elsewhere => none
  | .inside [] => some .directory
  | .inside names =>
    match dir.reverse.find? fun file => file.names == names with
    | some file => some (.file file)
    | none =>
      if dir.any fun file => names.isPrefixOf file.names then some .directory else none

/-- Follows the parts of a path from a place. Only a directory leads on, also by a part that is
empty or a dot. -/
def walk (dir : Directory) (place : Place) : List String → Except ReadError Entry
  | [] =>
    match dir.entry? place with
    | some entry => .ok entry
    | none => .error .notFound
  | part :: rest =>
    match dir.entry? place with
    | none => .error .notFound
    | some (.file _) => .error .notADirectory
    | some .directory =>
      if Path.isIdle part then dir.walk place rest
      else if part == ".." then dir.walk place.parent rest
      else if Path.partLimit < part.utf8ByteSize then .error .nameTooLong
      else dir.walk (place.child part) rest

/-- Reads the file at a path from the directory. A path with a NUL, or one that is too long as a
whole, is not followed at all. -/
def read (dir : Directory) (path : String) : Except ReadError Document :=
  if path.toList.contains '\x00' then .error .nulInName
  else if Path.limit < path.utf8ByteSize then .error .nameTooLong
  else
    match dir.walk (Path.start path) (Path.parts path) with
    | .ok (.file file) => Document.ofBytes? path file.bytes
    | .ok .directory => .error .isDirectory
    | .error e => .error e

end Directory

end ExprLang
