/-!
A folder of files as a value, and reading a file by its path. A path starts at the folder, or at the
root if a slash comes first; its parts are separated by slashes, and empty parts and single dots
stand for the place itself. Two dots lead out of the folder, to whatever lies around it.

Main statements: an empty path names no file (`Folder.read_empty`), and a file whose path is too
long cannot be read (`Folder.read_of_long`).
-/
namespace PromqlGuide

/-- What reading a file yields: there is none, it cannot be read, there can be no file of the name,
or its bytes. -/
inductive FileContents where
  | missing
  | unreadable
  | illegalName
  | bytes (data : List Nat)
  deriving Repr, DecidableEq

/-- What can lie at a place. -/
inductive Entry where
  | directory
  | file (data : List Nat)
  deriving Repr, DecidableEq

/-- A folder: the names along its own path from the root, its entries by their paths from the
folder, and what lies outside it, by the paths from the root. -/
structure Folder where
  place : List String
  entries : List (List String × Entry)
  around : List String → Option Entry

namespace Folder

/-- The parts of a text between slashes; `part` is the one being read, last character first. -/
def splitSlashes (part : List Char) : List Char → List String
  | [] => [String.ofList part.reverse]
  | c :: rest =>
    if c = '/' then String.ofList part.reverse :: splitSlashes [] rest
    else splitSlashes (c :: part) rest

/-- Whether a part of a path stands for the place itself. -/
def isHere (part : String) : Bool := part == "" || part == "."

/-- The names along a path. -/
def parts (path : String) : List String := (splitSlashes [] path.toList).filter (!isHere ·)

/-- Whether a path can only stand for a directory: its last part stands for the place itself. -/
def namesDirectory (path : String) : Bool :=
  ((splitSlashes [] path.toList).getLast?.map isHere).getD false

/-- Whether a path starts at the root. -/
def isAbsolute (path : String) : Bool := path.toList.head? == some '/'

/-- The path without empty parts, single dots and slashes at its end; nothing is left of the path of
the folder itself. -/
def cleaned (path : String) : String :=
  let joined := String.intercalate "/" (parts path)
  if isAbsolute path then "/" ++ joined else joined

/-- What lies below a folder, behind the given names. A place with entries below it is a
directory. -/
def inside? (f : Folder) (names : List String) : Option Entry :=
  if names.isEmpty then some .directory
  else
    match f.entries.find? fun e => e.1 == names with
    | some e => some e.2
    | none =>
      if f.entries.any fun e => names.isPrefixOf e.1 then some .directory else none

/-- What lies at a place, given by the names from the root. The folder lies in directories. -/
def entryAt? (f : Folder) (place : List String) : Option Entry :=
  match f.place.isPrefixOf? place with
  | some names => f.inside? names
  | none => if place.isPrefixOf f.place then some .directory else f.around place

/-- The most bytes that a name may have. -/
def nameLimit : Nat := 255

/-- The most bytes that a path may have. -/
def pathLimit : Nat := 4095

/-- Whether a name is too long for a file. -/
def isTooLong (name : String) : Bool := decide (nameLimit < name.utf8ByteSize)

/-- The place that a name leads to: two dots lead up, any other name leads down. -/
def step (place : List String) (name : String) : List String :=
  if name = ".." then place.dropLast else place ++ [name]

/-! ### Reading -/

/-- Follows the names of a path from a place on; `mustBeDirectory` says that the path can only
stand for a directory. -/
def follow (f : Folder) (mustBeDirectory : Bool) : List String → List String → FileContents
  | _, [] => .unreadable
  | place, name :: rest =>
    if isTooLong name then .unreadable
    else
      let next := step place name
      match f.entryAt? next with
      | none => .missing
      | some (.file data) =>
        if rest.isEmpty && !mustBeDirectory then .bytes data else .unreadable
      | some .directory => follow f mustBeDirectory next rest

/-- Whether a path can name a file: it has no null character. -/
def isLegal (path : String) : Bool := !path.toList.contains '\x00'

/-- Reads the file at a path in front of which `before` bytes more stand. -/
def readBehind (f : Folder) (before : Nat) (path : String) : FileContents :=
  if !isLegal path then .illegalName
  else if pathLimit < before + path.utf8ByteSize then .unreadable
  else if path.isEmpty then .missing
  else f.follow (namesDirectory path) (if isAbsolute path then [] else f.place) (parts path)

/-- Reads the file at a path. -/
def read (f : Folder) (path : String) : FileContents := f.readBehind 0 path

/-- How many bytes the path of the folder itself has, with a slash in front of each name. -/
def ownPathLength (f : Folder) : Nat :=
  f.place.foldl (fun bytes name => bytes + 1 + name.utf8ByteSize) 0

/-- Reads the file at a path that is made absolute. -/
def readAbsolute (f : Folder) (path : String) : FileContents :=
  f.readBehind (if isAbsolute path then 0 else f.ownPathLength + 1) path

/-- An empty path names no file. -/
theorem read_empty (f : Folder) : f.read "" = .missing := by
  simp [read, readBehind, isLegal]

/-- A file whose path is too long cannot be read. -/
theorem read_of_long (f : Folder) {path : String} (hl : isLegal path = true)
    (h : pathLimit < path.utf8ByteSize) : f.read path = .unreadable := by
  simp [read, readBehind, hl, h]

end Folder

end PromqlGuide
