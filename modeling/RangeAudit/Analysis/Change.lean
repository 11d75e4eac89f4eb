import RangeAudit.Analysis.State

namespace RangeAudit

def defaultThreshold : Number :=
  .double (.ofDecimal false 1 (-2))

/-- Whether two bounds are further apart than the threshold; an absent bound is not compared. -/
def boundMoved (threshold? : Option Number) (old new : Option Number) : Except Failure Bool :=
  match old, new with
  | some a, some b => do
    let distance := (← a.sub b).abs
    match threshold? with
    | some t => return t.lt distance
    | none => .error (.notOrdered ">" distance.kind "NoneType")
  | _, _ => .ok false

namespace Interval

/-- Whether an interval differs from an earlier one by more than the threshold. -/
def movedFrom (threshold? : Option Number) (old new : Interval) : Except Failure Bool := do
  if old.isBottom != new.isBottom || old.isTop != new.isTop then return true
  if ← boundMoved threshold? old.lo new.lo then return true
  if ← boundMoved threshold? old.hi new.hi then return true
  return old.lo.isNone != new.lo.isNone || old.hi.isNone != new.hi.isNone

end Interval

def entriesChanged (threshold? : Option Number) (snapshot : Ranges) :
    List (Place × Interval) → Except Failure Bool
  | [] => .ok false
  | (p, i) :: rest =>
    match snapshot.get? p with
    | none => .ok true
    | some old => do
      if ← old.movedFrom threshold? i then return true
      entriesChanged threshold? snapshot rest

def Ranges.changedSince (threshold? : Option Number) (r snapshot : Ranges) : Except Failure Bool :=
  entriesChanged threshold? snapshot r.entries

end RangeAudit
