/-
  Where included specifications are found.

  An include is a name without its extension.  Resolving it against a directory gives a path; no
  file is looked at and nothing is normalized.  An absolute name stands for itself.
-/
import LibrarySpec.Library.Basic

namespace LibrarySpec.Include

/-- The extension of specification files. -/
def extension : String := "lsl"

/-- A path inside a directory.  An absolute path replaces the directory; otherwise a slash is put
    between them, unless the directory is empty or ends in one. -/
def join (directory path : String) : String :=
  if path.toList.head? = some '/' then path
  else if directory.isEmpty || directory.toList.getLast? = some '/' then directory ++ path
  else directory ++ "/" ++ path

/-- The file that an include names. -/
def resolve (name directory : String) : String := join directory (name ++ "." ++ extension)

end LibrarySpec.Include

namespace LibrarySpec

/-- The files that a library includes, in order. -/
def Library.includePaths (library : Library) (directory : String) : List String :=
  library.includes.map fun name => Include.resolve name directory

end LibrarySpec
