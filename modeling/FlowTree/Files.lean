import FlowTree.Text.Glyph

/-!
Files: why one cannot be used, and paths joined to a directory. A path is taken as text, so `a/../b` is
`b` whether or not there is an `a`.
-/

namespace FlowTree

/-- Why a file cannot be read or written. -/
inductive FileError where
  | missing
  | isDirectory
  | notDirectory
  | nameTooLong
  /-- The path is none at all. -/
  | invalid
  /-- Anything else, in words. -/
  | other (reason : String)
  deriving DecidableEq, Repr

namespace FileError

/-- The reason in words. -/
def reason : FileError → String
  | .missing => "no such file or directory"
  | .isDirectory => "is a directory"
  | .notDirectory => "not a directory"
  | .nameTooLong => "file name too long"
  | .invalid => "invalid argument"
  | .other reason => reason

/-- What failed when a file could not be read: a directory can be opened, but not read. -/
def readAction : FileError → String
  | .isDirectory => "read"
  | _ => "open"

/-- Why the file at a path could not be read. -/
def onReading (e : FileError) (path : String) : String := e.readAction ++ " " ++ path ++ ": " ++ e.reason

end FileError

/-! ### Paths -/

/-- Add the parts of a path to those before it, the last one first. A part `..` takes the one before it
away; at the start it stays, unless the path starts at the root. -/
def addParts (rooted : Bool) : (before : List String) → List String → List String
  | before, [] => before
  | before, part :: more =>
    if part = "" || part = "." then addParts rooted before more
    else if part = ".." then
      match before with
      | last :: earlier =>
        if last = ".." then addParts rooted (part :: before) more else addParts rooted earlier more
      | [] => addParts rooted (if rooted then [] else [part]) more
    else addParts rooted (part :: before) more

/-- The shortest path with the same meaning. -/
def cleanPath (path : String) : String :=
  let rooted := path.toList.head? = some '/'
  let parts := (addParts rooted [] (path.splitOn "/")).reverse
  if rooted then "/" ++ "/".intercalate parts
  else if parts.isEmpty then "." else "/".intercalate parts

/-- The path of parts under a directory; parts without text do not count. -/
def joinPath (parts : List String) : String :=
  let parts := parts.filter (· ≠ "")
  if parts.isEmpty then "" else cleanPath ("/".intercalate parts)

def directoryOf (path : String) : String :=
  cleanPath (String.ofList (path.toList.reverse.dropWhile (· ≠ '/')).reverse)

/-- The directories on the way to a directory and itself, from the outermost on. -/
def directoriesTo (directory : String) : List String :=
  let parts := directory.splitOn "/"
  ((List.range parts.length).map fun i => "/".intercalate (parts.take (i + 1))).filter (· ≠ "")

end FlowTree
