import RangeAudit.Interval
import RangeAudit.Operator

open RangeAudit.Interval (leastWord greatestWord between)

namespace RangeAudit

/-- The bounds of two operands, an absent bound being infinite. -/
structure Corners where
  leftLo : Number
  leftHi : Number
  rightLo : Number
  rightHi : Number
  deriving DecidableEq, Repr

namespace Corners

def ofIntervals (l r : Interval) : Corners :=
  ⟨l.lo.getD .negInf, l.hi.getD .posInf, r.lo.getD .negInf, r.hi.getD .posInf⟩

def isUnbounded (c : Corners) : Bool :=
  c.leftLo.same .negInf || c.rightLo.same .negInf || c.leftHi.same .posInf || c.rightHi.same .posInf

/-- Whether the right operand may be zero. -/
def divisorMeetsZero (c : Corners) : Bool :=
  c.rightLo.le 0 && Number.le 0 c.rightHi

def divisorIsZero (c : Corners) : Bool :=
  c.rightLo.same 0 && c.rightHi.same 0

def clampLo (x : Number) : Number :=
  if x.lt (.int leastWord) then .int leastWord else x

def clampHi (x : Number) : Number :=
  if Number.le (.int (Nat.pow 2 256)) x then .int greatestWord else x

def bounded (lo hi : Number) : Interval :=
  between (if lo.same .negInf then .int leastWord else lo)
    (if hi.same .posInf then .int greatestWord else hi)

def clamped (lo hi : Number) : Interval :=
  bounded (clampLo lo) (clampHi hi)

def add (c : Corners) : Except Failure Interval := do
  let lo ← c.leftLo.add c.rightLo
  let hi ← c.leftHi.add c.rightHi
  return clamped lo hi

def sub (c : Corners) : Except Failure Interval := do
  let lo ← c.leftLo.sub c.rightHi
  let hi ← c.leftHi.sub c.rightLo
  return clamped lo hi

def mul (c : Corners) : Except Failure Interval := do
  if c.isUnbounded then return .word
  let p ← c.leftLo.mul c.rightLo
  let q ← c.leftLo.mul c.rightHi
  let r ← c.leftHi.mul c.rightLo
  let s ← c.leftHi.mul c.rightHi
  return clamped (Number.leastOf p [q, r, s]) (Number.greatestOf p [q, r, s])

/-- A quotient of unbounded operands is known by its sign only. -/
def divUnbounded (c : Corners) : Interval :=
  let positive := Number.lt 0 c.rightLo
  let negative := c.rightHi.lt 0
  if (positive && Number.le 0 c.leftLo) || (negative && c.leftHi.le 0) then .unsignedWord
  else if (positive && c.leftHi.le 0) || (negative && Number.le 0 c.leftLo) then
    between (.int leastWord) 0
  else .word

def quotients (c : Corners) : Except Failure (List Number) := do
  let (near, far) :=
    if Number.lt 0 c.rightLo then (c.rightLo, c.rightHi) else (c.rightHi, c.rightLo)
  let p ← c.leftLo.floorDiv near
  let q ← c.leftLo.floorDiv far
  let r ← c.leftHi.floorDiv near
  let s ← c.leftHi.floorDiv far
  return [p, q, r, s]

/-- A divisor next to zero is taken to allow any quotient of the dividend's sign. -/
def extremeQuotients (c : Corners) : List Number :=
  if c.rightLo.abs.lt 2 || c.rightHi.abs.lt 2 then
    (if c.leftLo.lt 0 then [Number.int leastWord] else []) ++
      (if Number.lt 0 c.leftHi then [Number.int greatestWord] else [])
  else []

def div (c : Corners) : Except Failure Interval := do
  if c.divisorMeetsZero then return .word
  if c.isUnbounded then return c.divUnbounded
  if !(Number.lt 0 c.rightLo || c.rightHi.lt 0) then return .word
  match (← c.quotients) ++ c.extremeQuotients with
  | [] => return .word
  | q :: qs =>
    return bounded (Number.greatest (.int leastWord) (Number.leastOf q qs))
      (Number.least (.int greatestWord) (Number.greatestOf q qs))

def modPositive (c : Corners) : Interval :=
  let reach := c.rightHi.pred
  if Number.le 0 c.leftLo then bounded 0 (Number.least c.leftHi reach)
  else if c.leftHi.lt 0 then bounded (Number.greatest reach.neg c.leftLo) 0
  else bounded reach.neg reach

def modNegative (c : Corners) : Interval :=
  let size := c.rightHi.abs
  if Number.le 0 c.leftLo then bounded 0 (Number.least c.leftHi size.pred)
  else if c.leftHi.lt 0 then bounded (Number.greatest size.neg.succ c.leftLo) 0
  else bounded size.neg.succ size.pred

def mod (c : Corners) : Interval :=
  if c.divisorMeetsZero then .unsignedWord
  else if Number.lt 0 c.rightLo then c.modPositive
  else if c.rightHi.lt 0 then c.modNegative
  else .unsignedWord

def isInfinite (x : Number) : Bool :=
  x.same .negInf || x.same .posInf

/-- A power that is no finite double counts as the end of a machine word that it lies beyond. -/
def power? (base exponent : Number) : Option Int :=
  if isInfinite base || isInfinite exponent then none
  else if Number.le 0 base && Number.le 0 exponent then
    some ((base.powInt? exponent).getD greatestWord)
  else if Number.lt 0 base && exponent.lt 0 then
    some (if base.same 1 then 1 else 0)
  else if base.lt 0 && Number.le 0 exponent && exponent.parityIs 0 then
    some ((base.abs.powInt? exponent).getD greatestWord)
  else if base.lt 0 && Number.le 0 exponent && exponent.parityIs 1 then
    some ((base.abs.powInt? exponent).elim leastWord (- ·))
  else none

def powers (c : Corners) : Interval :=
  let found := [power? c.leftLo c.rightLo, power? c.leftLo c.rightHi, power? c.leftHi c.rightLo,
    power? c.leftHi c.rightHi].filterMap (·.map Number.int)
  match found with
  | [] => .word
  | p :: ps =>
    bounded (Number.greatest (.int leastWord) (Number.leastOf p ps))
      (Number.least (.int greatestWord) (Number.greatestOf p ps))

/-- Powers of zero and of one, and powers with exponent zero or one, are known outright. -/
def pow (c : Corners) (left : Interval) : Interval :=
  if c.leftLo.same 0 && c.leftHi.same 0 then
    if Number.lt 0 c.rightLo then .point 0
    else if c.divisorIsZero then .point 1
    else .unsignedWord
  else if c.leftLo.same 1 && c.leftHi.same 1 then .point 1
  else if c.divisorIsZero then .point 1
  else if c.rightLo.same 1 && c.rightHi.same 1 then left
  else c.powers

/-- The least shift count as an integer, a count without lower bound being taken as zero. -/
def leastCount (c : Corners) : Except Failure Number :=
  if c.rightLo.same .negInf then .ok 0 else do return .int (← c.rightLo.trunc)

def greatestCount (c : Corners) : Number :=
  if c.rightHi.same .posInf then 256 else Number.least c.rightHi 256

def shiftedLo (memory? : Option Nat) (c : Corners) : Except Failure Number := do
  if c.leftLo.same .negInf then return .int leastWord
  if c.leftLo.lt 0 then
    let room ← Number.sub 255 c.greatestCount
    if c.leftLo.lt room.twoPow.neg then return .int leastWord
  c.leftLo.shiftLeft memory? (← c.leastCount)

def shiftedHi (memory? : Option Nat) (c : Corners) : Except Failure Number := do
  if c.leftHi.same .posInf then return .int greatestWord
  if Number.lt 0 c.leftHi && Number.lt 0 c.greatestCount then
    if (← Number.shiftRight (.int greatestWord) c.greatestCount).lt c.leftHi then
      return .int greatestWord
  c.leftHi.shiftLeft memory? (← c.leastCount)

/-- A left shift by negative counts shifts right. -/
def shl (memory? : Option Nat) (c : Corners) : Except Failure Interval := do
  if c.rightHi.lt 0 then
    let lo ← if c.leftLo.same .negInf then pure 0 else c.leftLo.shiftRight c.rightHi.abs
    let hi ← if c.leftHi.same .posInf then pure 0 else c.leftHi.shiftRight c.rightLo.abs
    return bounded lo hi
  else
    let lo ← c.shiftedLo memory?
    let hi ← c.shiftedHi memory?
    return clamped lo hi

/-- Negative counts shift left; beyond thirty places the result may be anything. -/
def shrNegative (memory? : Option Nat) (c : Corners) : Except Failure Interval := do
  let reach := if c.rightLo.same .negInf then 256 else Number.least c.rightLo.abs 256
  if Number.lt 30 reach then return .word
  let lo ←
    if c.leftLo.same .negInf then pure (.int leastWord)
    else c.leftLo.shiftLeft memory? c.rightHi.abs
  let hi ←
    if c.leftHi.same .posInf then pure (.int greatestWord)
    else c.leftHi.shiftLeft memory? c.rightLo.abs
  return clamped lo hi

def shr (memory? : Option Nat) (c : Corners) : Except Failure Interval := do
  if c.rightHi.lt 0 then c.shrNegative memory?
  else
    let lo ←
      if c.leftLo.same .negInf then pure (.int leastWord)
      else
        let count ←
          if c.rightHi.same .posInf then pure 256 else do pure (.int (← c.rightHi.trunc))
        c.leftLo.shiftRight count
    let hi ←
      if c.leftHi.same .posInf then pure (.int greatestWord)
      else c.leftHi.shiftRight (← c.leastCount)
    return bounded lo hi

end Corners

namespace Operator

def isDivision : Operator → Bool
  | .div | .mod => true
  | _ => false

def applyBounds (op : Operator) (l r : Interval) : Except Failure Interval :=
  let c := Corners.ofIntervals l r
  match op with
  | .add => c.add
  | .sub => c.sub
  | .mul => c.mul
  | .div => c.div
  | .mod => .ok c.mod
  | .pow => .ok (c.pow l)
  | .compare _ => .ok .bit
  | .logic => .ok .bit
  | .shl memory? => c.shl memory?
  | .shr memory? => c.shr memory?
  | .unknown _ => .ok .word

def apply (op : Operator) (l r : Interval) : Except Failure Interval :=
  if l.isBottom || r.isBottom then .ok .bottom
  else if l.isTop || r.isTop then
    if op.isDivision && r.isTop then .ok .unsignedWord else .ok .top
  else op.applyBounds l r

def meetsZero (op : Operator) (l r : Interval) : Bool :=
  op.isDivision && !l.isBottom && !r.isBottom && !l.isTop && !r.isTop &&
    (Corners.ofIntervals l r).divisorMeetsZero

end Operator

end RangeAudit
