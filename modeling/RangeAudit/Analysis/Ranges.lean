import RangeAudit.Interval
import RangeAudit.Program

namespace RangeAudit

structure Ranges where
  entries : List (Place × Interval)
  deriving DecidableEq, Repr

namespace Ranges

def empty : Ranges := ⟨[]⟩

def get? (r : Ranges) (p : Place) : Option Interval :=
  r.entries.lookup p

def contains (r : Ranges) (p : Place) : Bool :=
  (r.get? p).isSome

def getD (r : Ranges) (p : Place) : Interval :=
  (r.get? p).getD .bottom

def setEntries (p : Place) (i : Interval) : List (Place × Interval) → List (Place × Interval)
  | [] => [(p, i)]
  | (q, j) :: rest => if q = p then (q, i) :: rest else (q, j) :: setEntries p i rest

/-- A place that is written again keeps its position. -/
def set (r : Ranges) (p : Place) (i : Interval) : Ranges :=
  ⟨setEntries p i r.entries⟩

def map (f : Place → Interval → Interval) (r : Ranges) : Ranges :=
  ⟨r.entries.map fun (p, i) => (p, f p i)⟩

/-- What a later look at these ranges will find: a copy holds the stable places only. -/
def snapshot (r : Ranges) : Ranges :=
  ⟨r.entries.filter fun (p, _) => p.isStable⟩

/-- Widen every place that the earlier ranges know, away from its earlier interval. -/
def widenFrom (r earlier : Ranges) : Ranges :=
  r.map fun p i => match earlier.get? p with
    | some old => old.widen i
    | none => i

def narrowTo (r earlier : Ranges) : Ranges :=
  r.map fun p i => match earlier.get? p with
    | some old => i.narrow old
    | none => i

theorem lookup_setEntries (p q : Place) (i : Interval) (l : List (Place × Interval)) :
    (setEntries p i l).lookup q = if q = p then some i else l.lookup q := by
  induction l with
  | nil =>
    by_cases h : q = p
    · simp [setEntries, h]
    · have hb : (q == p) = false := by simp [h]
      simp [setEntries, List.lookup_cons, h, hb]
  | cons e l ih =>
    obtain ⟨r, j⟩ := e
    by_cases hr : r = p
    · subst hr
      by_cases hq : q = r
      · simp [setEntries, hq]
      · have hb : (q == r) = false := by simp [hq]
        simp [setEntries, List.lookup_cons, hq, hb]
    · by_cases hq : q = r
      · subst hq
        simp [setEntries, hr]
      · have hb : (q == r) = false := by simp [hq]
        simp [setEntries, List.lookup_cons, hr, hb, ih]

theorem get?_set (r : Ranges) (p q : Place) (i : Interval) :
    (r.set p i).get? q = if q = p then some i else r.get? q :=
  lookup_setEntries p q i r.entries

@[simp]
theorem get?_set_self (r : Ranges) (p : Place) (i : Interval) : (r.set p i).get? p = some i := by
  simp [get?_set]

theorem get?_set_of_ne {p q : Place} (r : Ranges) (i : Interval) (h : q ≠ p) :
    (r.set p i).get? q = r.get? q := by
  simp [get?_set, h]

end Ranges

end RangeAudit
