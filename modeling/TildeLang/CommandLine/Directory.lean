/-!
# Reading a file

A **directory** holds files by name and no other directories.  A path is
followed one component at a time: an empty component and `.` stay where they
are, `..` leaves to a directory above, of which nothing is known, and a name
leads to a file.  Nothing lies below a file.
-/

namespace TildeLang.CommandLine

/-- Why a file cannot be read. -/
inductive ReadError where
  | missing
  | isDirectory
  | notDirectory
  | notUtf8
  | other (text : String)
deriving DecidableEq, Repr

/-- The wording of a read error. -/
def ReadError.message : ReadError → String
  | missing => "No such file or directory (os error 2)"
  | isDirectory => "Is a directory (os error 21)"
  | notDirectory => "Not a directory (os error 20)"
  | notUtf8 => "stream did not contain valid UTF-8"
  | other text => text

/-- The text of the bytes of a file. -/
def decodeText (bytes : ByteArray) : Except ReadError String :=
  match String.fromUTF8? bytes with
  | some text => .ok text
  | none => .error .notUtf8

/-- Files by name, a later one replacing an earlier one of the same name. -/
structure Directory where
  files : List (String × ByteArray)

namespace Directory

/-- Where a path has led so far. -/
inductive Place where
  /-- The directory itself. -/
  | here
  /-- A directory above it, or anywhere outside it. -/
  | outside
  /-- A file of the directory. -/
  | file (bytes : ByteArray)

/-- The file with a name. -/
def find? (d : Directory) (name : String) : Option ByteArray :=
  d.files.reverse.lookup name

/-- Follows one component of a path. -/
def step (d : Directory) (place : Place) (component : String) : Except ReadError Place :=
  match place with
  | .file _ => .error .notDirectory
  | .outside => if component ∈ ["", ".", ".."] then .ok .outside else .error .missing
  | .here =>
      if component ∈ ["", "."] then .ok .here
      else if component = ".." then .ok .outside
      else match d.find? component with
        | some bytes => .ok (.file bytes)
        | none => .error .missing

/-- The text of the file at a path. -/
def read (d : Directory) (path : String) : Except ReadError String := do
  if path = "" then throw .missing
  let components := (path.splitOn "/")
  let start := if components.head? = some "" then Place.outside else Place.here
  match ← components.foldlM d.step start with
  | .file bytes => decodeText bytes
  | _ => throw .isDirectory

end Directory

end TildeLang.CommandLine
