import HeaviestChain.Bytes

/-!
# Files

How a file is found by its path, and why none may be found.  The files here are held in memory, so
that a program that reads files can be run on any of them.

A path is a list of names with strokes between.  It is followed name by name, from the root if it
begins with a stroke, else from the directory where the program works.
-/

namespace HeaviestChain

/-- Why a file cannot be read. -/
structure FileError where
  /-- What is wrong. -/
  reason : String
  /-- The number that the operating system has for the reason. -/
  code : Nat
  deriving DecidableEq

namespace FileError

/-- There is nothing of this name. -/
def missing : FileError := ⟨"No such file or directory", 2⟩

/-- A name is looked for in something that is no directory. -/
def notDirectory : FileError := ⟨"Not a directory", 20⟩

/-- The path leads to a directory. -/
def isDirectory : FileError := ⟨"Is a directory", 21⟩

/-- A name or the whole path is too long. -/
def nameTooLong : FileError := ⟨"File name too long", 36⟩

/-- What is reported about the error. -/
def message (error : FileError) : String := s!"{error.reason} (os error {error.code})"

end FileError

/-- A place among the files: the names on the way from the root. -/
abbrev Place := List String

/-- Files in memory. -/
structure Storage where
  /-- The files with their contents. -/
  files : List (Place × Bytes) := []
  /-- The directory where the program works. -/
  workplace : Place := []

namespace Storage

/-- The largest size of a name in bytes. -/
def maxNameSize : Nat := 255

/-- The largest size of a path in bytes. -/
def maxPathSize : Nat := 4095

/-- Whether there is a directory: a file or the directory where the program works is below it. -/
def hasDirectory (storage : Storage) (place : Place) : Bool :=
  place.isPrefixOf storage.workplace ||
    storage.files.any fun file => place.isPrefixOf file.1 && place ≠ file.1

/-- Follows one name from a place where there is something.  An empty name leads nowhere else. -/
def follow (storage : Storage) (place : Place) (name : String) : Except FileError Place :=
  let next := place ++ [name]
  if !storage.hasDirectory place then .error .notDirectory
  else if name.isEmpty || name = "." then .ok place
  else if name = ".." then .ok place.dropLast
  else if maxNameSize < name.utf8ByteSize then .error .nameTooLong
  else if storage.hasDirectory next || (storage.files.lookup next).isSome then .ok next
  else .error .missing

/-- The place that a path leads to. -/
def find (storage : Storage) (path : String) : Except FileError Place :=
  if path.isEmpty then .error .missing
  else if maxPathSize < path.utf8ByteSize then .error .nameTooLong
  else
    let start := if path.toList.head? = some '/' then [] else storage.workplace
    (path.splitOn "/").foldlM storage.follow start

/-- The content of the file that a path leads to. -/
def read (storage : Storage) (path : String) : Except FileError Bytes := do
  let place ← storage.find path
  match storage.files.lookup place with
  | some content => pure content
  | none => throw .isDirectory

end Storage

end HeaviestChain
