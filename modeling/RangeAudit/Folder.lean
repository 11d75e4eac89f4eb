import RangeAudit.Failure
import RangeAudit.Text.Search

namespace RangeAudit

structure Folder where
  files : List (String × String)
  directories : List String
  deriving DecidableEq, Repr

namespace Folder

def empty : Folder := ⟨[], []⟩

inductive Spot
  | inside (parts : List String)
  | outside
  | file (text : String)
  | nowhere
  | overlong
  deriving DecidableEq, Repr

def nameLimit : Nat := 255

def pathLimit : Nat := 4095

def hasDirectory (d : Folder) (path : String) : Bool :=
  d.directories.contains path || d.files.any (Text.startsWith ·.1 (path ++ "/")) ||
    d.directories.any (Text.startsWith · (path ++ "/"))

def enter (d : Folder) (parts : List String) (name : String) : Spot :=
  let path := Text.join "/" (parts ++ [name])
  match d.files.lookup path with
  | some text => .file text
  | none => if d.hasDirectory path then .inside (parts ++ [name]) else .nowhere

def step (d : Folder) : Spot → String → Spot
  | .inside parts, part =>
    if part = "" ∨ part = "." then .inside parts
    else if part = ".." then if parts.isEmpty then .outside else .inside parts.dropLast
    else if part.utf8ByteSize > nameLimit then .overlong
    else d.enter parts part
  | .outside, part =>
    if part = "" ∨ part = "." ∨ part = ".." then .outside
    else if part.utf8ByteSize > nameLimit then .overlong
    else .nowhere
  | .file _, _ => .nowhere
  | .nowhere, _ => .nowhere
  | .overlong, _ => .overlong

/-- Follow the parts of a path. A path that begins with a slash starts outside. -/
def walk (d : Folder) : List String → Spot
  | [] => .nowhere
  | first :: rest =>
    if first = "" then if rest.isEmpty then .nowhere else rest.foldl d.step .outside
    else (first :: rest).foldl d.step (.inside [])

inductive Entry
  | absent
  | directory
  | file (text : String)
  deriving DecidableEq, Repr

def Spot.entry : Spot → Entry
  | inside _ | outside => .directory
  | file text => .file text
  | nowhere | overlong => .absent

/-- What stands under a path. A path by which the folder lists something needs no walk. -/
def entry (d : Folder) (path : String) : Entry :=
  match d.files.lookup path with
  | some text => .file text
  | none =>
    if d.directories.contains path then .directory
    else if path.utf8ByteSize > pathLimit then .absent
    else (d.walk (Text.split '/' path)).entry

/-- The name of the file that a path creates in an empty folder. -/
def destination (path : String) : Except Failure String :=
  let parts := Text.split '/' path
  let named := (parts.reverse.dropWhile (· == "")).reverse
  let start : Spot := if parts.head? = some "" then .outside else .inside []
  if path.toList.contains '\x00' then .error (.reported "embedded null byte")
  else if path.utf8ByteSize > pathLimit then .error (.nameTooLong path)
  else
    match named.getLast?, named.dropLast.foldl empty.step start with
    | none, _ => if parts.length ≤ 1 then .error (.noSuchFile path) else .error (.isDirectory path)
    | some _, .overlong => .error (.nameTooLong path)
    | some _, .nowhere | some _, .file _ => .error (.noSuchFile path)
    | some name, spot =>
      if name = "." ∨ name = ".." then .error (.isDirectory path)
      else if name.utf8ByteSize > nameLimit then .error (.nameTooLong path)
      else if spot = .outside then .error (.noSuchFile path)
      else if parts.getLast? = some "" then .error (.isDirectory path)
      else .ok name

end Folder

end RangeAudit
