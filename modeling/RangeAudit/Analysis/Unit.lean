import RangeAudit.Analysis.Record
import RangeAudit.Analysis.Worklist
import RangeAudit.Json

namespace RangeAudit

namespace Ranges

def select (r : Ranges) (vars : List Variable) : List (Variable × Interval) :=
  vars.eraseDups.map fun v => (v, r.getD v.place)

end Ranges

namespace Function

def summary (f : Function) (contract : String) (r : Ranges) : Summary :=
  ⟨contract, f.name, r.select f.params, r.select f.returns⟩

def isSkipped (f : Function) : Bool :=
  f.isConstructor || f.name == "slitherConstructorVariables"

def report (cfg : Config) (f : Function) (contract : String) : Analysis (List Record) := do
  f.analyze cfg
  modify fun s => { s with summaries := s.summaries ++ [f.summary contract s.ranges] }
  .ofExcept ((← get).ranges.violations contract f.name)

end Function

def reportFunctions (cfg : Config) (contract : String) : List Function → Analysis (List Record)
  | [] => pure []
  | f :: rest => do
    let here ← f.report cfg contract
    let later ← reportFunctions cfg contract rest
    return here ++ later

def reportContracts (cfg : Config) : List Contract → Analysis (List Record)
  | [] => pure []
  | c :: rest => do
    let here ← reportFunctions cfg c.name (c.functions.filter (!·.isSkipped))
    let later ← reportContracts cfg rest
    return here ++ later

namespace CompilationUnit

/-- Analyse a unit: the violations in order, followed by the issues met on the way. -/
def analyze (cfg : Config) (u : CompilationUnit) : Analysis (List Record) := do
  let violations ← reportContracts cfg (u.derivedContracts.filter (·.isFinancial))
  return violations ++ (← get).issues.map fun issue => .issue issue.text

def records (u : CompilationUnit) : Except Failure (List Record) :=
  match (u.analyze {}).run .initial with
  | .ok records _ => .ok records
  | .error f _ => .error f

end CompilationUnit

structure SummaryText where
  params : List (String × String)
  returns : List (String × String)
  deriving DecidableEq, Repr

def namedTexts (l : List (Variable × Interval)) : Except Failure (List (String × String)) :=
  l.foldlM (fun texts (v, i) => do return insertKeyed v.name (← i.write) texts) []

def Summary.texts (s : Summary) : Except Failure SummaryText := do
  return ⟨← namedTexts s.params, ← namedTexts s.returns⟩

/-- The summaries by contract and function name; of functions with one name the last counts. -/
def State.summaryTexts (s : State) : Except Failure (List (String × SummaryText)) :=
  s.summaries.foldlM
    (fun texts m => do return insertKeyed (m.contract ++ "." ++ m.function) (← m.texts) texts) []

namespace CompilationUnit

def summaryTexts (u : CompilationUnit) : Except Failure (List (String × SummaryText)) :=
  match (u.analyze {}).run .initial with
  | .ok _ s => s.summaryTexts
  | .error f _ => .error f

end CompilationUnit

end RangeAudit
