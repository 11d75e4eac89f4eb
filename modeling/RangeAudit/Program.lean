import RangeAudit.Number
import RangeAudit.Operator

namespace RangeAudit

/-- A part of a description. A part that is there can still be empty. -/
inductive Part (α : Type)
  | missing
  | empty
  | given (value : α)
  deriving DecidableEq, Repr

inductive VariableKind
  | localVariable | stateVariable | temporary | reference | plain
  deriving DecidableEq, Repr

/-- A variable. Its identifier is its identity, and names may repeat. -/
structure Variable where
  id : String
  name : String
  kind : VariableKind
  type? : Option String
  bounded? : Option Bool
  /-- Whether a snapshot of the tracked ranges finds the variable again. -/
  stable : Bool
  deriving DecidableEq, Repr

/-- The order in which a set of variables is gone through, given its members as they were added. -/
structure SetOrder where
  arrange : List Variable → List Variable
  perm : ∀ members, (arrange members).Perm members

def SetOrder.ofInsertion : SetOrder := ⟨id, fun _ => .refl _⟩

/-- Where an interval is stored: at a variable, or at a result that no variable is named for. -/
inductive Place
  | var (v : Variable)
  | unnamed
  deriving DecidableEq, Repr

namespace Place

def text : Place → String
  | var v => v.name
  | unnamed => "None"

def type? : Place → Option String
  | var v => v.type?
  | unnamed => none

def isStable : Place → Bool
  | var v => v.stable
  | unnamed => true

end Place

inductive Literal
  | int (n : Int)
  | text (s : String)
  | truth (b : Bool)
  | empty
  deriving DecidableEq, Repr

namespace Literal

def toText : Literal → String
  | int n => toString n
  | text s => s
  | truth b => if b then "True" else "False"
  | empty => "None"

def number? : Literal → Option Number
  | int n => some (.int n)
  | truth b => some (.truth b)
  | _ => none

end Literal

inductive Operand
  | place (p : Place)
  | literal (c : Literal)
  deriving DecidableEq, Repr

namespace Operand

def text : Operand → String
  | place p => p.text
  | literal c => c.toText

def place? : Operand → Option Place
  | place p => some p
  | literal _ => none

end Operand

structure Callee where
  name : Part String
  library? : Option String
  returnType? : Option String
  modified : Part (List Variable)
  deriving DecidableEq, Repr

/-- How far the callee of a call is known. -/
inductive Target
  | absent
  | unresolved
  | known (callee : Callee)
  deriving DecidableEq, Repr

inductive CallKind
  | high | low | internal | send | transfer
  deriving DecidableEq, Repr

def CallKind.isExternal : CallKind → Bool
  | internal => false
  | _ => true

inductive Shape
  | binary | assign | convert
  deriving DecidableEq, Repr

abbrev Args := Part (List Operand)

inductive Instr
  | binary (op : Operator) (result : Place) (left right : Operand)
  | assign (result : Place) (source : Operand)
  | convert (result : Place) (source : Operand)
  | member (result? : Option Place) (base field : String)
  | builtin (result? : Option Place) (target : Target) (args : Args) (text : String)
  | call (kind : CallKind) (result? : Option Place) (target : Target) (args : Args)
  | condition (subject : Operand)
  | other (result? : Option Place) (source? : Option Operand) (target : Target) (args : Args)
  /-- An instruction without the part of the name, and with what it copies if that is there. -/
  | incomplete (shape : Shape) (part : String) (result? : Option Place) (source? : Option Operand)
  deriving DecidableEq, Repr

namespace Instr

def result? : Instr → Option Place
  | binary _ p _ _ | assign p _ | convert p _ => some p
  | member p _ _ | builtin p _ _ _ | call _ p _ _ | other p _ _ _ | incomplete _ _ p _ => p
  | condition _ => none

def source? : Instr → Option Operand
  | assign _ s => some s
  | other _ s _ _ | incomplete _ _ _ s => s
  | _ => none

end Instr

/-- The expression that a branch decides on, as far as it is understood. -/
inductive Expression
  | binary (op : Operator) (left right : Operand)
  | incomplete (part : String)
  | other
  deriving DecidableEq, Repr

structure Node where
  instrs : List Instr
  sons : List Nat
  isBranch : Bool
  condition : Expression
  isGuard : Bool
  text : String
  written : List Variable
  deriving DecidableEq, Repr

/-- It may be missing or empty, of a form that equals no text, or fail when it is asked for. -/
inductive Signature
  | absent
  | unset
  | text (s : String)
  | foreign
  | unreadable (message : String)
  deriving DecidableEq, Repr

abbrev Dependencies := List (String × List String)

structure Function where
  name : String
  fullName : String
  nodes : List Node
  params : List Variable
  returns : List Variable
  modifiers : List String
  visibility : String
  isConstructor : Bool
  signature : Signature
  deps : Dependencies
  isMapped : Bool
  deriving DecidableEq, Repr

def Function.instrs (f : Function) : List Instr :=
  f.nodes.flatMap (·.instrs)

structure Contract where
  name : String
  functions : List Function
  stateVariables : List Variable
  bases : List String
  isFungibleToken : Bool
  isUniqueToken : Bool
  isDerived : Bool
  deps : Dependencies
  deriving DecidableEq, Repr

/-- How contracts are found by name. -/
inductive LookupMode
  | all | first | nothing | failing | unavailable
  deriving DecidableEq, Repr

structure CompilationUnit where
  contracts : List Contract
  tainted : List String
  lookupMode : LookupMode
  deriving DecidableEq, Repr

namespace CompilationUnit

def empty : CompilationUnit := ⟨[], [], .all⟩

def derivedContracts (u : CompilationUnit) : List Contract :=
  u.contracts.filter (·.isDerived)

/-- What a search for a contract by name gives. -/
inductive Lookup
  | unavailable
  | failed
  | found (contracts : List Contract)
  deriving DecidableEq, Repr

def search (u : CompilationUnit) (isWanted : String → Bool) : Lookup :=
  match u.lookupMode with
  | .all => .found (u.contracts.filter fun c => isWanted c.name)
  | .first => .found ((u.contracts.find? fun c => isWanted c.name).toList)
  | .nothing => .found []
  | .failing => .failed
  | .unavailable => .unavailable

def lookup (u : CompilationUnit) (name : String) : Lookup :=
  u.search (· == name)

end CompilationUnit

def Contract.functionNamed? (c : Contract) (name : String) : Option Function :=
  c.functions.find? (·.name == name)

namespace Dependencies

def depends (d : Dependencies) (id source : String) : Bool :=
  ((d.lookup id).getD []).contains source

def relates (d : Dependencies) (v source : Variable) : Bool :=
  v.id == source.id || d.depends v.id source.id

end Dependencies

end RangeAudit
