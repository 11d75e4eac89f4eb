import RangeAudit.Folder
import RangeAudit.Json.Writer
import RangeAudit.Listing
import RangeAudit.Program.Reader
import RangeAudit.Transcript

namespace RangeAudit

inductive Remaps
  | unset
  | list (l : List String)
  | table (l : List (String × String))
  deriving DecidableEq, Repr

structure CompilerCall where
  path : String
  remaps : Remaps
  deriving DecidableEq, Repr

/-- What the compiler hands over. -/
inductive Compilation
  | wrapped (u : CompilationUnit)
  | listed (first : CompilationUnit) (rest : List CompilationUnit)
  | bare (u : CompilationUnit)
  | failed (message : String)
  deriving DecidableEq, Repr

structure Journal where
  transcript : Transcript
  errors : List String
  calls : List CompilerCall
  files : List (String × String)
  deriving DecidableEq, Repr

namespace Journal

def empty : Journal := ⟨.empty, [], [], []⟩

def errorOutput (j : Journal) : String :=
  String.join (j.errors.map (· ++ "\n"))

end Journal

abbrev Command (α : Type) := EStateM Failure Journal α

namespace Command

def speaker : String := "IntervalAnalysis"

def report {α : Type} (r : Reporting α) : Command α := fun j =>
  match r j.transcript with
  | .ok a t => .ok a { j with transcript := t }
  | .error f t => .error f { j with transcript := t }

def say (line : String) : Command Unit :=
  report (Reporting.say line)

def note (level : LogLevel) (message : String) : Command Unit :=
  report (Reporting.note level speaker message)

def complain (line : String) : Command Unit :=
  modify fun j => { j with errors := j.errors ++ [line] }

def ofExcept {α : Type} : Except Failure α → Command α
  | .ok a => pure a
  | .error f => throw f

def call (path : String) (remaps : Remaps) : Command Unit :=
  modify fun j => { j with calls := j.calls ++ [⟨path, remaps⟩] }

/-- Write a file into the folder of the command, which holds nothing else. -/
def save (path text : String) : Command Unit := do
  let name ← ofExcept (Folder.destination path)
  modify fun j => { j with files := insertKeyed name text j.files }

end Command

structure Outcome where
  exitCode : Nat
  journal : Journal
  deriving DecidableEq, Repr

/-- Run a command from an empty journal; a failure is told, with the exit code 1. -/
def Command.finish (body : Command Unit) (tell : Failure → Command Unit) : Outcome :=
  match body .empty with
  | .ok _ j => ⟨0, j⟩
  | .error f j =>
    match tell f j with
    | .ok _ j | .error _ j => ⟨1, j⟩

end RangeAudit
