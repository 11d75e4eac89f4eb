import RangeAudit.Interval
import RangeAudit.Json
import RangeAudit.Number.Reader
import RangeAudit.Program

namespace RangeAudit

namespace Json

def textD (j : Json) (key default : String) : String :=
  ((j.get? key).bind str?).getD default

def flagD (j : Json) (key : String) (default : Bool) : Bool :=
  ((j.get? key).bind bool?).getD default

def listD (j : Json) (key : String) : List Json :=
  ((j.get? key).map items).getD []

def textsD (j : Json) (key : String) : List String :=
  (j.listD key).filterMap str?

end Json

/-- A bound: null is absent, a truth value stands for itself, and a number is written as a text. -/
def Number.ofJson? : Json → Except Failure (Option Number)
  | .bool b => .ok (some (.truth b))
  | .str s => some <$> Number.ofText s
  | .num n => .ok (some n)
  | _ => .ok none

def Interval.ofJson (j : Json) : Except Failure Interval :=
  match j.items with
  | [lo, hi] => do return ⟨← Number.ofJson? lo, ← Number.ofJson? hi⟩
  | _ => .ok .bottom

namespace Variable

def kindOfText : String → VariableKind
  | "state" => .stateVariable
  | "temp" => .temporary
  | "ref" => .reference
  | "plain" => .plain
  | _ => .localVariable

def undeclared (id : String) : Variable :=
  ⟨id, id, .localVariable, none, none, false⟩

/-- The variable declared under an identifier. A type that is null has a text but no bounds. -/
def ofJson (id : String) (j : Json) : Variable where
  id := id
  name := j.textD "name" id
  kind := kindOfText (j.textD "kind" "local")
  type? := (j.get? "type").map Json.display
  bounded? := match j.get? "type" with
    | some (.str _) => some (j.flagD "bounded" false)
    | _ => none
  stable := j.flagD "stable" false

end Variable

abbrev Declarations := List (String × Variable)

namespace Declarations

def ofJson (j : Json) : Declarations :=
  j.fields.map fun (id, v) => (id, Variable.ofJson id v)

def find (d : Declarations) (id : String) : Variable :=
  (d.lookup id).getD (.undeclared id)

def findAll (d : Declarations) (j : Json) (key : String) : List Variable :=
  (j.textsD key).map d.find

end Declarations

namespace Literal

def ofJson (j : Json) : Except Failure Literal :=
  match j.fields with
  | ("int", .str s) :: _ => do return .int (← Number.readInteger s)
  | ("int", .num (.int n)) :: _ => .ok (.int n)
  | ("str", .str s) :: _ => .ok (.text s)
  | ("bool", .bool b) :: _ => .ok (.truth b)
  | _ => .ok .empty

end Literal

namespace Operand

def ofJson (d : Declarations) : Json → Except Failure Operand
  | .str id => .ok (.place (.var (d.find id)))
  | .null => .ok (.place .unnamed)
  | j => do return .literal (← Literal.ofJson j)

end Operand

namespace Place

/-- A constant as a result gets a place after its position, which nothing else names. -/
def ofJson (d : Declarations) (position : String) (j : Json) : Except Failure Place := do
  match ← Operand.ofJson d j with
  | .place p => return p
  | .literal c => return .var ⟨"constant " ++ position, c.toText, .plain, none, none, false⟩

end Place

namespace Part

def ofJson {α : Type} (read : Json → α) : Option Json → Part α
  | none => .missing
  | some .null => .empty
  | some j => .given (read j)

end Part

namespace Callee

def ofJson (d : Declarations) (j : Json) : Callee where
  name := .ofJson Json.display (j.get? "name")
  library? := (j.get? "contract").map Json.display
  returnType? := ((j.get? "return_type").filter Json.isPresent).map Json.display
  modified := .ofJson (fun _ => d.findAll j "modified") (j.get? "modified")

end Callee

namespace Target

def ofJson (d : Declarations) : Option Json → Target
  | none => .absent
  | some .null => .unresolved
  | some j => .known (.ofJson d j)

end Target

namespace Args

def ofJson (d : Declarations) : Option Json → Except Failure Args
  | none => .ok .missing
  | some .null => .ok .empty
  | some j => do return .given (← j.items.mapM (Operand.ofJson d))

end Args

namespace Instr

def ofBinaryParts (memory? : Option Nat) :
    Option Json → Option Place → Option Operand → Option Operand → Instr
  | none, p?, _, _ => .incomplete .binary "type_str" p? none
  | _, none, _, _ => .incomplete .binary "lvalue" none none
  | _, p?, none, _ => .incomplete .binary "variable_left" p? none
  | _, p?, _, none => .incomplete .binary "variable_right" p? none
  | some op, some p, some l, some r => .binary (.ofText memory? op.display) p l r

def ofAssignParts : Option Place → Option Operand → Instr
  | some p, some s => .assign p s
  | none, s => .incomplete .assign "lvalue" none s
  | some p, none => .incomplete .assign "rvalue" (some p) none

def ofConvertParts : Option Place → Option Operand → Instr
  | some p, some s => .convert p s
  | none, _ => .incomplete .convert "lvalue" none none
  | some p, none => .incomplete .convert "variable" (some p) none

def ofMemberParts (p? : Option Place) : Option Json → Option Json → Instr
  | some base, some field => .member p? base.display field.display
  | _, _ => .other p? none .absent .missing

def ofJson (memory? : Option Nat) (d : Declarations) (position : String) (j : Json) :
    Except Failure Instr := do
  let result? := (j.get? "lvalue").mapM (Place.ofJson d position)
  let operand? (key : String) := (j.get? key).mapM (Operand.ofJson d)
  let target := Target.ofJson d (j.get? "function")
  let args := Args.ofJson d (j.get? "args")
  let call (kind : CallKind) : Except Failure Instr := do
    return .call kind (← result?) target (← args)
  match j.textD "ir" "other" with
  | "binary" =>
    return ofBinaryParts memory? (j.get? "op") (← result?) (← operand? "left") (← operand? "right")
  | "assign" => return ofAssignParts (← result?) (← operand? "rvalue")
  | "convert" => return ofConvertParts (← result?) (← operand? "variable")
  | "member" => return ofMemberParts (← result?) (j.get? "left") (j.get? "right")
  | "solidity_call" => return .builtin (← result?) target (← args) (j.textD "text" "")
  | "high_call" => call .high
  | "low_call" => call .low
  | "internal_call" => call .internal
  | "send" => call .send
  | "transfer" => return .call .transfer none target (← args)
  | "condition" => return .condition ((← operand? "expr").getD (.place .unnamed))
  | _ => return .other (← result?) (← operand? "rvalue") target (← args)

end Instr

namespace Expression

def ofParts : Option Operand → Option Operand → Option Json → Expression
  | none, _, _ => .incomplete "variable_left"
  | _, none, _ => .incomplete "variable_right"
  | _, _, none => .incomplete "type_str"
  | some l, some r, some op => .binary (.ofText none op.display) l r

/-- It must be readable as an instruction, but only binary expressions are understood. -/
def ofJson (d : Declarations) (j : Json) : Except Failure Expression := do
  let _ ← Instr.ofJson none d "" j
  let operand? (key : String) := (j.get? key).mapM (Operand.ofJson d)
  if j.textD "ir" "" = "binary" then
    return ofParts (← operand? "left") (← operand? "right") (j.get? "op")
  else return .other

end Expression

namespace Node

def ofJson (memory? : Option Nat) (d : Declarations) (index : Nat) (j : Json) :
    Except Failure Node := do
  let instrs ← (j.listD "irs").zipIdx.mapM fun (i, number) =>
    Instr.ofJson memory? d (toString index ++ "." ++ toString number) i
  let condition? ← (j.get? "cond").mapM (Expression.ofJson d)
  return {
    instrs
    sons := (j.listD "sons").filterMap fun s => s.int?.map Int.toNat
    isBranch := j.flagD "if" false
    condition := condition?.getD .other
    isGuard := j.flagD "require" false
    text := j.textD "text" ""
    written := d.findAll j "written" }

end Node

namespace Signature

def ofJson : Option Json → Signature
  | none => .absent
  | some .null => .unset
  | some (.str s) => .text s
  | some (.obj fields) =>
    match fields.lookup "raise" with
    | some message => .unreadable message.display
    | none => .foreign
  | some _ => .foreign

end Signature

namespace Dependencies

def ofJson (j : Json) : Dependencies :=
  ((j.get? "deps").map Json.fields).getD [] |>.map fun (id, ids) =>
    (id, ids.items.filterMap Json.str?)

end Dependencies

namespace Function

def ofJson (memory? : Option Nat) (d : Declarations) (j : Json) : Except Failure Function := do
  return {
    name := j.textD "name" ""
    fullName := j.textD "full_name" (j.textD "name" "")
    nodes := ← (j.listD "nodes").zipIdx.mapM fun (n, index) => Node.ofJson memory? d index n
    params := d.findAll j "params"
    returns := d.findAll j "returns"
    modifiers := j.textsD "modifiers"
    visibility := j.textD "visibility" "public"
    isConstructor := j.flagD "constructor" false
    signature := .ofJson (j.get? "signature")
    deps := .ofJson j
    isMapped := !j.flagD "unmapped" false }

end Function

namespace Contract

def ofJson (memory? : Option Nat) (d : Declarations) (j : Json) : Except Failure Contract := do
  return {
    name := j.textD "name" ""
    functions := ← (j.listD "functions").mapM (Function.ofJson memory? d)
    stateVariables := d.findAll j "state_variables"
    bases := j.textsD "inheritance"
    isFungibleToken := j.flagD "erc20" false
    isUniqueToken := j.flagD "erc721" false
    isDerived := j.flagD "derived" true
    deps := .ofJson j }

end Contract

namespace CompilationUnit

def lookupModeOfText : String → LookupMode
  | "single" => .first
  | "empty" => .nothing
  | "raise" => .failing
  | "absent" => .unavailable
  | _ => .all

/-- The unit, for a machine whose memory takes so many places of an integer, or any number. -/
def ofJson (memory? : Option Nat) (j : Json) : Except Failure CompilationUnit := do
  let d := Declarations.ofJson ((j.get? "vars").getD .null)
  return {
    contracts := ← (j.listD "contracts").mapM (Contract.ofJson memory? d)
    tainted := j.textsD "tainted"
    lookupMode := lookupModeOfText (j.textD "lookup" "list") }

end CompilationUnit

end RangeAudit
