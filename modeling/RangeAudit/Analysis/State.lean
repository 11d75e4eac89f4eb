import RangeAudit.Analysis.Issue
import RangeAudit.Analysis.Ranges
import RangeAudit.Failure

namespace RangeAudit

structure Summary where
  contract : String
  function : String
  params : List (Variable × Interval)
  returns : List (Variable × Interval)
  deriving DecidableEq, Repr

structure State where
  ranges : Ranges
  issues : List Issue
  /-- Results of checked arithmetic, for which no overflow is reported. -/
  checked : List Place
  summaries : List Summary
  deriving DecidableEq, Repr

def State.initial : State := ⟨.empty, [], [], []⟩

abbrev Analysis (α : Type) := EStateM Failure State α

def Analysis.ofExcept {α : Type} : Except Failure α → Analysis α
  | .ok a => pure a
  | .error e => throw e

end RangeAudit
