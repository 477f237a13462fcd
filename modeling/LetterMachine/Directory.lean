import LetterMachine.Fault
import LetterMachine.Text.Newline

/-!
# Files

Programs are read from files.  A path is a row of names between slashes; `.` stays where it is and
`..` goes one directory up.  What stands below the present directory is a list of files, through
which a path is followed name by name.  What a path leads to that begins at the root, or that leads
out of the present directory, is another matter, and given with the directory.
-/

namespace LetterMachine

open LetterMachine.Text

/-- What a path leads to. -/
inductive Directory.Entry where
  | file (bytes : List UInt8)
  | directory
  | nothing
  /-- Nothing, as the path goes on behind a file. -/
  | behindFile
  | denied
  | tooLong
  | null

structure Directory where
  files : List (String × List UInt8)
  /-- The paths of directories that stand beside the directories of the files. -/
  folders : List String
  /-- What a path leads to that begins at the root or leads out of the directory. -/
  elsewhere : String → Directory.Entry

namespace Directory

/-- A directory of files, with nothing around it. -/
def ofFiles (files : List (String × List UInt8)) : Directory := ⟨files, [], fun _ => .nothing⟩

def names (path : String) : List String :=
  (path.splitOn "/").filter fun name => name != "" && name != "."

/-- Does the path insist on a directory, by a slash or a dot at its end? -/
def insists (path : String) : Bool :=
  match (path.splitOn "/").getLast? with
  | some last => last == "." || last == ""
  | none => false

def shortened (path : String) : String :=
  let row := "/".intercalate (names path)
  if path.startsWith "//" && !path.startsWith "///" then "//" ++ row
  else if path.startsWith "/" then "/" ++ row
  else if row == "" then "." else row

def isLong (name : String) : Bool := name.utf8ByteSize > 255

/-- What a path leads to from a directory inside, by the rest of its names.  A name is looked at only
where all names before it lead to a directory. -/
def look (d : Directory) (path : String) : (inside rest : List String) → Entry
  | _, [] => .directory
  | inside, name :: rest =>
    if name == ".." then
      if inside.isEmpty then d.elsewhere path else look d path inside.dropLast rest
    else if isLong name then .tooLong
    else
      let here := inside ++ [name]
      match d.files.find? fun file => names file.1 == here with
      | some (_, bytes) => if rest.isEmpty && !insists path then .file bytes else .behindFile
      | none =>
        if (d.files.map Prod.fst ++ d.folders).any fun path => here.isPrefixOf (names path) then
          look d path here rest
        else .nothing

def entry (d : Directory) (path : String) : Entry :=
  if path.toList.contains '\x00' then .null
  else if path.utf8ByteSize > 4095 then .tooLong
  else if path == "" then .nothing
  else if path.startsWith "/" then d.elsewhere path
  else look d path [] (names path)

/-- The text of a file, with line feeds for line ends. -/
def text (d : Directory) (path : String) : Answer String :=
  match d.entry path with
  | .file bytes => do
    return String.ofList (unixLines (← (decode bytes).mapError Fault.undecodable))
  | .directory => .error (.directory path)
  | .nothing => .error (.missingFile path)
  | .behindFile => .error (.notDirectory path)
  | .denied => .error (.accessDenied path)
  | .tooLong => .error (.nameTooLong path)
  | .null => .error .nullInPath

end Directory

end LetterMachine
