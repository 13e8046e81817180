/-
  Directories of files, as the command line sees them.

  A `Directory` keeps entries by path.  A path is a text with slashes between its parts, and it is
  followed part by part, from the directory or, if it starts with a slash, from the root:

    1. An empty part and a part that is a dot lead nowhere else, two dots lead up, and any other part
       leads down by its name.
    2. A part can only be followed from a folder.  So a path that goes on after a file leads nowhere,
       be it by a mere slash, and so does a path that goes on after something missing, even if two
       dots would lead back from there.
    3. Folders are the directory itself, all that is above it, the root, and whatever an entry is
       inside of.

  `resolve` follows a path; `read` answers the text of a file or why there is none; `write` replaces
  the content of a file.
-/
import LibrarySpec.Text.Utf8

namespace LibrarySpec

/-- What a path leads to. -/
inductive Entry where
  | folder
  | file (content : List UInt8) (readable writable : Bool)
deriving DecidableEq, Repr

/-- Why a file has no text. -/
inductive ReadFault where
  | missing
  | folder
  | notFolder
  | nameTooLong
  | denied
  | notText
deriving DecidableEq, Repr

/-- The wording of a read fault. -/
def ReadFault.message : ReadFault → String
  | missing => "No such file or directory (os error 2)"
  | folder => "Is a directory (os error 21)"
  | notFolder => "Not a directory (os error 20)"
  | nameTooLong => "File name too long (os error 36)"
  | denied => "Permission denied (os error 13)"
  | notText => "stream did not contain valid UTF-8"

/-! ## Places -/

/-- A place among folders: the names that lead down to it from the directory or from the root.  Names
    that are two dots come first; they lead up. -/
structure Place where
  absolute : Bool
  names : List String
deriving DecidableEq, Repr

namespace Place

/-- The place above. -/
def parent (place : Place) : Place :=
  match place.names.getLast? with
  | some name =>
    if name = ".." then { place with names := place.names ++ [".."] }
    else { place with names := place.names.dropLast }
  | none => if place.absolute then place else { place with names := [".."] }

/-- The place that a part of a path leads to. -/
def enter (place : Place) (part : String) : Place :=
  if part = "" ∨ part = "." then place
  else if part = ".." then place.parent
  else { place with names := place.names ++ [part] }

/-- Where a path starts. -/
def start (path : String) : Place := ⟨path.toList.head? == some '/', []⟩

/-- The parts of a path. -/
def parts (path : String) : List String := path.splitOn "/"

/-- The place that a path leads to, if it leads through folders only. -/
def ofPath (path : String) : Place := (parts path).foldl enter (start path)

/-- Whether a place is the directory, the root, or above them. -/
def isAbove (place : Place) : Bool := place.names.all (· == "..")

/-- Whether a place is inside another, or the same. -/
def isInside (place folder : Place) : Bool :=
  place.absolute == folder.absolute && folder.names.isPrefixOf place.names

end Place

/-! ## Directories -/

/-- Entries by path. -/
structure Directory where
  entries : List (String × Entry)
deriving DecidableEq, Repr

namespace Directory

/-- How many bytes a path can have. -/
def longestPath : Nat := 4095

/-- How many bytes a name can have. -/
def longestName : Nat := 255

/-- What is at a place. -/
def entryAt? (directory : Directory) (place : Place) : Option Entry :=
  match directory.entries.find? fun e => Place.ofPath e.1 = place with
  | some e => some e.2
  | none =>
    if place.isAbove || directory.entries.any fun e => (Place.ofPath e.1).isInside place then
      some .folder
    else none

/-- What the parts of a path lead to from a place. -/
def follow (directory : Directory) (place : Place) : List String → Except ReadFault Entry
  | [] =>
    match directory.entryAt? place with
    | some entry => .ok entry
    | none => .error .missing
  | part :: rest =>
    match directory.entryAt? place with
    | some .folder =>
      if part.utf8ByteSize ≤ longestName then directory.follow (place.enter part) rest
      else .error .nameTooLong
    | some (.file ..) => .error .notFolder
    | none => .error .missing

/-- What a path leads to.  An entry that is kept under the very text of the path comes first. -/
def resolve (directory : Directory) (path : String) : Except ReadFault Entry :=
  match directory.entries.lookup path with
  | some entry => .ok entry
  | none =>
    if path.utf8ByteSize ≤ longestPath then directory.follow (Place.start path) (Place.parts path)
    else .error .nameTooLong

/-- The text of a file, or why it has none. -/
def read (directory : Directory) (path : String) : Except ReadFault String := do
  match ← directory.resolve path with
  | .folder => .error .folder
  | .file content readable _ =>
    if readable then
      match Text.Utf8.decode content with
      | .ok text => .ok (String.ofList text)
      | .error _ => .error .notText
    else .error .denied

/-- Whether a file takes a new content. -/
def accepts (directory : Directory) (path : String) : Bool :=
  match directory.resolve path with
  | .ok (.file _ _ writable) => writable
  | _ => false

/-- The directory with a new text in a file. -/
def write (directory : Directory) (path text : String) : Directory :=
  ⟨directory.entries.map fun (name, entry) =>
    match entry with
    | .file content readable writable =>
      if Place.ofPath name = Place.ofPath path then
        (name, .file text.toUTF8.toList readable writable)
      else (name, .file content readable writable)
    | .folder => (name, .folder)⟩

end Directory
end LibrarySpec
