import RangeAudit.Failure
import RangeAudit.Json

namespace RangeAudit.Report

inductive Setting
  | text (s : String)
  | number (n : Int)
  deriving DecidableEq, Repr

abbrev Settings := List (String × Setting)

structure Column where
  title : String
  settings : Settings
  deriving DecidableEq, Repr

inductive Tree
  | node (label : String) (children : List Tree)
  deriving Repr

inductive Block
  | line (text : String)
  | plain (content : Json) (settings : Settings)
  | panel (content : Block) (settings : Settings)
  | table (settings : Settings) (columns : List Column) (rows : List (List Json))
  | tree (root : Tree)
  deriving Repr

abbrev Drawing := List (Option Block)

/-- A terminal, given by what keeps it from drawing a block, such as marks that it cannot read. -/
structure Console where
  fault? : Block → Option Failure

/-- A terminal that reads no marks and so draws every block. -/
def Console.plain : Console := ⟨fun _ => none⟩

end RangeAudit.Report
