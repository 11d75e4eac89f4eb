import RangeAudit.Program
import RangeAudit.Transcript

namespace RangeAudit

/-- How severe the findings of a detector are, or how sure it is of them. -/
inductive Level
  | medium | high
  deriving DecidableEq, Repr

namespace Level

def label : Level → String
  | medium => "Medium"
  | high => "High"

def code : Level → String
  | medium => "MEDIUM"
  | high => "HIGH"

end Level

structure Profile where
  check : String
  registration : String
  help : String
  impact : Level
  confidence : Level
  wiki : String
  title : String
  description : String
  scenario : String
  recommendation : String
  deriving DecidableEq, Repr

structure Finding where
  profile : Profile
  description : String
  functions : List Function
  deriving DecidableEq, Repr

namespace Finding

def plain (p : Profile) (description : String) : Finding :=
  ⟨p, description, []⟩

def pointTo (x : Finding) (f : Function) : Except Failure Finding :=
  if f.isMapped then .ok { x with functions := x.functions ++ [f] } else .error .unmapped

def pointTo? (x : Finding) : Option Function → Except Failure Finding
  | some f => x.pointTo f
  | none => .ok x

end Finding

def gather {m : Type → Type} [Monad m] {α : Type} (find : α → m (List Finding)) :
    List α → m (List Finding)
  | [] => pure []
  | a :: rest => do
    let here ← find a
    let later ← gather find rest
    return here ++ later

end RangeAudit
