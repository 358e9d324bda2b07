import FlowTree.Files

/-!
A disk in memory: files and directories by their places, and what becomes of reading, writing and making
directories on it. A path is followed part by part, so every directory that it passes through has to be
there, also one that it leaves again.
-/

namespace FlowTree

/-- Files and directories. A place is the list of the names on the way from the root. -/
structure Disk where
  /-- The place where paths start that do not start at the root. -/
  work : List String
  files : List (List String × Text) := []
  /-- The directories that are there whether or not there is a file in them. -/
  directories : List (List String) := []
  deriving Repr, Inhabited

namespace Disk

/-- The most bytes that a name may have, and the least that make a path too long. -/
def longestName : Nat := 255
def overlongPath : Nat := 4096

/-- The place is a directory: it is one of its own, or something is in it. -/
def isDirectory (d : Disk) (place : List String) : Bool :=
  place.isPrefixOf d.work || d.directories.any (place.isPrefixOf ·) ||
    d.files.any fun (file, _) => place.isPrefixOf file && place.length < file.length

/-- The content of the file at a place. -/
def file? (d : Disk) (place : List String) : Option Text := d.files.lookup place

/-- Follow the parts of a path from a place. Every part but the last leads to a directory. -/
def follow (d : Disk) : (place : List String) → List String → Except FileError (List String)
  | place, [] => .ok place
  | place, part :: more =>
    if !d.isDirectory place then .error (if (d.file? place).isSome then .notDirectory else .missing)
    else if part = "" || part = "." then d.follow place more
    else if part = ".." then d.follow place.dropLast more
    else if longestName < part.utf8ByteSize then .error .nameTooLong
    else d.follow (place ++ [part]) more

/-- The place that a path leads to. -/
def locate (d : Disk) (path : String) : Except FileError (List String) :=
  if path.toList.contains '\x00' then .error .invalid
  else if overlongPath ≤ path.utf8ByteSize then .error .nameTooLong
  else if path = "" then .error .missing
  else d.follow (if path.toList.head? = some '/' then [] else d.work) (path.splitOn "/")

def read (d : Disk) (path : String) : Except FileError Text := do
  let place ← d.locate path
  if d.isDirectory place then .error .isDirectory
  else match d.file? place with
    | some content => .ok content
    | none => .error .missing

/-- Make a directory, unless it is there already. The one that it is in has to be there. -/
def makeDirectory (d : Disk) (path : String) : Except FileError Disk := do
  let place ← d.locate path
  if d.isDirectory place then .ok d
  else if (d.file? place).isSome then .error .notDirectory
  else .ok { d with directories := place :: d.directories }

/-- Write a file over what was in it. -/
def write (d : Disk) (path : String) (content : Text) : Except FileError Disk := do
  let place ← d.locate path
  if d.isDirectory place then .error .isDirectory
  else .ok { d with files := (place, content) :: d.files.filter (·.1 ≠ place) }

end Disk

end FlowTree
