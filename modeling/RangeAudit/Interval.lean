import RangeAudit.Number

namespace RangeAudit

structure Interval where
  lo : Option Number
  hi : Option Number
  deriving DecidableEq, Repr, Inhabited

namespace Interval

def bottom : Interval := ⟨none, none⟩
def top : Interval := ⟨some .negInf, some .posInf⟩

def between (lo hi : Number) : Interval := ⟨some lo, some hi⟩
def atMost (hi : Number) : Interval := ⟨none, some hi⟩
def atLeast (lo : Number) : Interval := ⟨some lo, none⟩
def point (x : Number) : Interval := ⟨some x, some x⟩

def isBottom (i : Interval) : Bool :=
  i.lo.isNone && i.hi.isNone

def boundIs (bound : Option Number) (x : Number) : Bool :=
  match bound with
  | some y => y.same x
  | none => false

def isTop (i : Interval) : Bool :=
  boundIs i.lo .negInf && boundIs i.hi .posInf

def both (f : Number → Number → Number) : Option Number → Option Number → Option Number
  | some x, some y => some (f x y)
  | _, _ => none

/-- The smallest interval around two; an absent bound on either side stays absent. -/
def join (a b : Interval) : Interval :=
  if a.isBottom then b
  else if b.isBottom then a
  else if a.isTop || b.isTop then top
  else ⟨both .least a.lo b.lo, both .greatest a.hi b.hi⟩

def isCrossed (i : Interval) : Bool :=
  match i.lo, i.hi with
  | some l, some h => h.lt l
  | _, _ => false

/-- The common part of two intervals; an absent bound on either side stays absent. -/
def meet (a b : Interval) : Interval :=
  if a.isBottom || b.isBottom then bottom
  else if a.isTop then b
  else if b.isTop then a
  else
    let m : Interval := ⟨both .greatest a.lo b.lo, both .least a.hi b.hi⟩
    if m.isCrossed then bottom else m

/-- The lower bound after widening: it falls to minus infinity if the new one is below it. -/
def widenLo : Option Number → Option Number → Option Number
  | some x, some y => if y.lt x then some .negInf else some x
  | x, _ => x

def widenHi : Option Number → Option Number → Option Number
  | some x, some y => if x.lt y then some .posInf else some x
  | x, _ => x

def widen (a b : Interval) : Interval :=
  if a.isBottom then b
  else if b.isBottom then a
  else ⟨widenLo a.lo b.lo, widenHi a.hi b.hi⟩

/-- Infinite bounds give way to those of the other interval. -/
def narrow (a b : Interval) : Interval :=
  if a.isBottom || b.isBottom then bottom
  else
    ⟨if boundIs a.lo .negInf then b.lo else a.lo, if boundIs a.hi .posInf then b.hi else a.hi⟩

def sameBound : Option Number → Option Number → Bool
  | some x, some y => x.same y
  | none, none => true
  | _, _ => false

/-- Equality of intervals by the values of their bounds. -/
def same (a b : Interval) : Bool :=
  (a.isBottom && b.isBottom) || (a.isTop && b.isTop) ||
    (sameBound a.lo b.lo && sameBound a.hi b.hi)

def loWithin : Option Number → Option Number → Bool
  | _, none => true
  | some x, some y => y.le x
  | none, some _ => false

def hiWithin : Option Number → Option Number → Bool
  | _, none => true
  | some x, some y => x.le y
  | none, some _ => false

def isSubset (a b : Interval) : Bool :=
  if a.isBottom then true
  else if b.isBottom then false
  else if b.isTop then true
  else if a.isTop then false
  else loWithin a.lo b.lo && hiWithin a.hi b.hi

def boundText : Option Number → String
  | some x => x.text
  | none => "None"

def text (i : Interval) : String :=
  if i.isBottom then "⊥"
  else if i.isTop then "⊤"
  else "[" ++ boundText i.lo ++ ", " ++ boundText i.hi ++ "]"

def isWritable (i : Interval) : Bool :=
  i.lo.all Number.isWritable && i.hi.all Number.isWritable

def write (i : Interval) : Except Failure String :=
  if i.isWritable then .ok i.text else .error .tooLongToWrite

def leastWord : Int := -(Nat.pow 2 255)
def greatestWord : Int := Nat.pow 2 256 - 1

def word : Interval := between (.int leastWord) (.int greatestWord)

def unsignedWord : Interval := between 0 (.int greatestWord)

def signedWord : Interval := between (.int leastWord) (.int (Nat.pow 2 255 - 1))

def bit : Interval := between 0 1
def address : Interval := between 0 (.int (Nat.pow 2 160 - 1))

end Interval

end RangeAudit
