namespace RangeAudit

inductive Comparison
  | lt | le | gt | ge | eq | ne
  deriving DecidableEq, Repr

inductive Operator
  | add | sub | mul | div | mod | pow
  /-- A shift, on a machine whose memory takes so many places of thirty bits, or any number. -/
  | shl (memory? : Option Nat)
  | shr (memory? : Option Nat)
  | compare (c : Comparison)
  | logic
  | unknown (text : String)
  deriving DecidableEq, Repr

namespace Operator

def ofText (memory? : Option Nat) (s : String) : Operator :=
  match s with
  | "+" => .add
  | "-" => .sub
  | "*" => .mul
  | "/" => .div
  | "%" => .mod
  | "**" => .pow
  | "<<" => .shl memory?
  | ">>" => .shr memory?
  | "<" => .compare .lt
  | "<=" => .compare .le
  | ">" => .compare .gt
  | ">=" => .compare .ge
  | "==" => .compare .eq
  | "!=" => .compare .ne
  | "&&" => .logic
  | "||" => .logic
  | "and" => .logic
  | "or" => .logic
  | s => .unknown s

end Operator

end RangeAudit
