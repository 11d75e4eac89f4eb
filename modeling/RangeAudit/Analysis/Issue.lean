import RangeAudit.Interval
import RangeAudit.Program

namespace RangeAudit

def Literal.isWritable : Literal → Bool
  | int n => (Number.int n).isWritable
  | _ => true

def Operand.isWritable : Operand → Bool
  | place _ => true
  | literal c => c.isWritable

inductive Issue
  | divisorMayBeZero (remainder : Bool) (divisor : Interval)
  | divisorIsZero (remainder : Bool)
  | additionOverflow (result : Place) (left right : Interval)
  | subtractionUnderflow (result : Place) (left right : Interval)
  | multiplicationOverflow (result : Place) (left right : Interval)
  | powerOverflow (result : Place) (left right : Interval)
  | divisionByZero (result : Place) (dividend : Operand) (divisor : Interval)
  deriving DecidableEq, Repr

namespace Issue

def equation (result : Place) (left : Interval) (symbol : String) (right : Interval) : String :=
  result.text ++ " = " ++ left.text ++ " " ++ symbol ++ " " ++ right.text

def text : Issue → String
  | divisorMayBeZero remainder i =>
    "确定性除零风险: " ++ (if remainder then "模运算" else "") ++ "除数区间 " ++ i.text ++ " 包含0"
  | divisorIsZero remainder =>
    "确定性除零错误: " ++ (if remainder then "模运算" else "") ++ "除数区间为 [0,0]"
  | additionOverflow p l r => "潜在加法溢出: " ++ equation p l "+" r
  | subtractionUnderflow p l r => "潜在减法下溢: " ++ equation p l "-" r
  | multiplicationOverflow p l r => "潜在乘法溢出: " ++ equation p l "*" r
  | powerOverflow p l r => "潜在幂运算溢出: " ++ equation p l "**" r
  | divisionByZero p dividend divisor =>
    "潜在除零错误: " ++ p.text ++ " = " ++ dividend.text ++ " / [包含0的区间 " ++ divisor.text ++ "]"

def intervals : Issue → List Interval
  | divisorMayBeZero _ divisor => [divisor]
  | divisorIsZero _ => []
  | additionOverflow _ l r | subtractionUnderflow _ l r | multiplicationOverflow _ l r
  | powerOverflow _ l r => [l, r]
  | divisionByZero _ _ divisor => [divisor]

def operand? : Issue → Option Operand
  | divisionByZero _ dividend _ => some dividend
  | _ => none

/-- Whether the text of an issue can be written: no integer in it must have too many digits. -/
def isWritable (issue : Issue) : Bool :=
  issue.intervals.all (·.isWritable) && issue.operand?.all (·.isWritable)

/-- What raising an issue appends; its text is written at once. -/
def raised : Option Issue → Except Failure (List Issue)
  | none => .ok []
  | some issue => if issue.isWritable then .ok [issue] else .error .tooLongToWrite

end Issue

end RangeAudit
