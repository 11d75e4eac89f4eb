import RangeAudit.Detector.Finding

namespace RangeAudit

namespace UnboundedChange

def profile : Profile where
  check := "unbounded-flashloan-risk"
  registration := "UnboundedFlashLoanRisk"
  help := "Unbounded state changes after flash loan callbacks"
  impact := .high
  confidence := .medium
  wiki := "https://example.com/wiki/unbounded-flashloan-risk"
  title := "Unbounded Flash Loan Risk"
  description :=
    "Detects functions handling flash loan callbacks that modify critical state without proper " ++
    "bounds or validation, risking manipulation or exploits."
  scenario :=
    "A DeFi contract implements `uniswapV2Call` and updates a price variable based on flash " ++
    "loan inputs. Without bounds, an attacker manipulates the price via a large loan."
  recommendation :=
    "Add explicit bounds or range checks on state variables modified in flash loan callbacks. " ++
    "Use interval analysis to ensure constraints hold."

def signatures : List String :=
  ["uniswapV2Call(address,uint256,uint256,bytes)",
    "executeOperation(address[],uint256[],uint256[],address,bytes)"]

def isCallback (f : Function) : Except Failure Bool :=
  match f.signature with
  | .absent => .error (.missing "Function" "signature")
  | .text s => .ok (signatures.contains s)
  | _ => .ok false

/-- Whether an attacker controls the variable, or a variable that it depends on in the function. -/
def isTainted (u : CompilationUnit) (f : Function) (v : Variable) : Bool :=
  u.tainted.any fun id => v.id == id || f.deps.depends v.id id

/-- Whether the variable has no bounds and an attacker controls it. -/
def isAtRisk (u : CompilationUnit) (f : Function) (v : Variable) : Except Failure Bool :=
  match v.bounded? with
  | some bounded => .ok (!bounded && isTainted u f v)
  | none => .error (.missing "NoneType" "is_bounded")

def anyM {α : Type} (test : α → Except Failure Bool) : List α → Except Failure Bool
  | [] => .ok false
  | a :: rest => do if ← test a then return true else anyM test rest

def writtenByCallee : Instr → Except Failure (List Variable)
  | .builtin _ target _ _ | .call _ _ target _ =>
    match target with
    | .absent => .error (.missing "Call" "function")
    | .unresolved => .ok []
    | .known c =>
      match c.modified with
      | .given vars => .ok vars
      | .empty => .error (.noItems "NoneType")
      | .missing => .error (.missing "Function" "modified_state_variables")
  | _ => .ok []

/-- Whether some call of the function writes a variable at risk. -/
def hasUnboundedChange (u : CompilationUnit) (f : Function) : Except Failure Bool :=
  anyM (fun i => do anyM (isAtRisk u f) (← writtenByCallee i)) f.instrs

def inspect (u : CompilationUnit) (c : Contract) (f : Function) :
    Except Failure (List Finding) := do
  if ← isCallback f then
    if ← hasUnboundedChange u f then
      return [.plain profile ("Function " ++ f.fullName ++ " in contract " ++ c.name ++
        " handles a flash loan callback with unbounded state changes.\n")]
  return []

def detect (u : CompilationUnit) : Except Failure (List Finding) :=
  gather (fun c => gather (inspect u c) c.functions) u.derivedContracts

end UnboundedChange

end RangeAudit
