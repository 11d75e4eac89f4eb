import RangeAudit.Detector.Finding
import RangeAudit.Text.Search

namespace RangeAudit

namespace UncheckedBalance

def profile : Profile where
  check := "unchecked-balance-change"
  registration := "UncheckedBalanceChangeDetector"
  help := "Detects unchecked changes to token balances"
  impact := .high
  confidence := .medium
  wiki := "https://github.com/your-repo/wiki/unchecked-balance-change"
  title := "Unchecked Token Balance Change"
  description :=
    "Token balance changes without sufficient checks may allow unauthorized modifications."
  scenario := "A function increases `balances[msg.sender]` without verifying funds."
  recommendation := "Add require() checks before modifying balances."

/-- Whether a state variable maps addresses to amounts. -/
def isBalance (v : Variable) : Except Failure Bool :=
  match v.type? with
  | some type => .ok (Text.contains type "mapping(address=>uint256)")
  | none => .error (.missing "StateVariable" "type")

def balancesOf : List Variable → Except Failure (List Variable)
  | [] => .ok []
  | v :: rest => do
    let here ← isBalance v
    let later ← balancesOf rest
    return if here then v :: later else later

def assignedName? : Instr → Except Failure (Option String)
  | .assign (.var v) _ | .incomplete .assign _ (some (.var v)) _ => .ok (some v.name)
  | .assign .unnamed _ | .incomplete .assign _ (some .unnamed) _ =>
    .error (.missing "NoneType" "name")
  | .incomplete .assign _ none _ => .error (.missing "Assignment" "lvalue")
  | _ => .ok none

/-- Whether the instruction assigns to a balance, by the beginning of the name. -/
def assignsBalance (balances : List Variable) (i : Instr) : Except Failure Bool := do
  match ← assignedName? i with
  | some name => return balances.any fun v => Text.startsWith name v.name
  | none => return false

def checksBalance (c : Contract) (balances : List Variable) : Instr → Bool
  | .condition (.place (.var v)) => balances.any fun b => c.deps.relates v b
  | _ => false

/-- The findings of a node: one for each assignment to a balance, unless a check came before. -/
def inspectNode (c : Contract) (f : Function) (balances : List Variable) (checked : Bool)
    (n : Node) : Except Failure (List Finding) :=
  gather (fun i => do
    if (← assignsBalance balances i) && !checked then
      return [.plain profile
        ("Unchecked balance change in " ++ f.name ++ " (" ++ c.name ++ ")\n")]
    else return []) n.instrs

def inspectNodes (c : Contract) (f : Function) (balances : List Variable) :
    Bool → List Node → Except Failure (List Finding)
  | _, [] => .ok []
  | checked, n :: rest => do
    let here ← inspectNode c f balances checked n
    let later ←
      inspectNodes c f balances (checked || n.instrs.any (checksBalance c balances)) rest
    return here ++ later

def inspect (c : Contract) : Except Failure (List Finding) := do
  match ← balancesOf c.stateVariables with
  | [] => return []
  | balances => gather (fun f => inspectNodes c f balances false f.nodes) c.functions

def detect (u : CompilationUnit) : Except Failure (List Finding) :=
  gather inspect u.contracts

end UncheckedBalance

end RangeAudit
