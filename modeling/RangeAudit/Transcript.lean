import RangeAudit.Failure

namespace RangeAudit

inductive LogLevel
  | info | warning | error
  deriving DecidableEq, Repr

def LogLevel.text : LogLevel → String
  | info => "INFO"
  | warning => "WARNING"
  | error => "ERROR"

structure LogEntry where
  level : LogLevel
  speaker : String
  message : String
  deriving DecidableEq, Repr

def LogEntry.text (e : LogEntry) : String :=
  e.level.text ++ ":" ++ e.speaker ++ ":" ++ e.message

structure Transcript where
  lines : List String
  log : List LogEntry
  deriving DecidableEq, Repr

namespace Transcript

def empty : Transcript := ⟨[], []⟩

def say (t : Transcript) (line : String) : Transcript :=
  { t with lines := t.lines ++ [line] }

def note (t : Transcript) (e : LogEntry) : Transcript :=
  { t with log := t.log ++ [e] }

def output (t : Transcript) : String :=
  String.join (t.lines.map (· ++ "\n"))

end Transcript

abbrev Reporting (α : Type) := EStateM Failure Transcript α

namespace Reporting

def say (line : String) : Reporting Unit :=
  modify (·.say line)

def note (level : LogLevel) (speaker message : String) : Reporting Unit :=
  modify (·.note ⟨level, speaker, message⟩)

def ofExcept {α : Type} : Except Failure α → Reporting α
  | .ok a => pure a
  | .error f => throw f

end Reporting

end RangeAudit
