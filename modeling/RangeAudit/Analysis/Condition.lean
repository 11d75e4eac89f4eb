import RangeAudit.Analysis.Effect

namespace RangeAudit

def Literal.threshold? : Literal → Option Number
  | .text s => (Literal.numeral? s).map .int
  | c => c.number?

/-- The interval without zero where zero is an end of it; zero between other values stays. -/
def Interval.withoutZero (i : Interval) : Interval :=
  match i.lo, i.hi with
  | some l, some h =>
    if l.le 0 && Number.le 0 h then
      match l.lt 0, Number.lt 0 h with
      | true, true => .between l h
      | true, false => .between l (.int (-1))
      | false, true => .between 1 h
      | false, false => .bottom
    else i
  | _, _ => i

namespace Comparison

def refineBy (c : Comparison) (i : Interval) (x : Number) : Interval :=
  match c with
  | .lt => i.meet (.atMost x.pred)
  | .le => i.meet (.atMost x)
  | .gt => i.meet (.atLeast x.succ)
  | .ge => i.meet (.atLeast x)
  | .eq => i.meet (.point x)
  | .ne => if x.same 0 then i.withoutZero else i

/-- The values on the left that compare as stated with some value on the right. -/
def refineLeft? (c : Comparison) (l r : Interval) : Option Interval :=
  match c with
  | .lt => r.hi.map fun h => l.meet (.atMost h.pred)
  | .le => r.hi.map fun h => l.meet (.atMost h)
  | .gt => r.lo.map fun x => l.meet (.atLeast x.succ)
  | .ge => r.lo.map fun x => l.meet (.atLeast x)
  | .eq => some (l.meet r)
  | .ne => none

def refineRight? (c : Comparison) (l r : Interval) : Option Interval :=
  match c with
  | .lt => l.lo.map fun x => r.meet (.atLeast x.succ)
  | .le => l.lo.map fun x => r.meet (.atLeast x)
  | .gt => l.hi.map fun h => r.meet (.atMost h.pred)
  | .ge => l.hi.map fun h => r.meet (.atMost h)
  | .eq => some (l.meet r)
  | .ne => none

end Comparison

namespace Ranges

def setSome (r : Ranges) (p : Place) (i? : Option Interval) : Ranges :=
  i?.elim r (r.set p)

def refineByNumber (r : Ranges) (c : Comparison) (p : Place) (x : Number) : Ranges :=
  match r.get? p with
  | none => r
  | some i =>
    let j := c.refineBy i x
    if j.same i then r else r.set p j

/-- Refine two tracked places by their comparison; both are refined from the intervals they had. -/
def refinePair (r : Ranges) (c : Comparison) (p q : Place) : Ranges :=
  match r.get? p, r.get? q with
  | some i, some j => (r.setSome p (c.refineLeft? i j)).setSome q (c.refineRight? i j)
  | _, _ => r

def refine (r : Ranges) (c : Comparison) (left right : Operand) : Ranges :=
  match left, right with
  | .place p, .literal k => k.threshold?.elim r (r.refineByNumber c p)
  | .place p, .place q => r.refinePair c p q
  | .literal _, _ => r

end Ranges

def Expression.assume (e : Expression) : Analysis Unit := fun s =>
  match e with
  | .binary (.compare c) left right => .ok () { s with ranges := s.ranges.refine c left right }
  | .incomplete part => .error (.missing "Binary" part) s
  | _ => .ok () s

end RangeAudit
