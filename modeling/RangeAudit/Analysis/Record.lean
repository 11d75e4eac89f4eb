import RangeAudit.Analysis.State
import RangeAudit.Vocabulary

namespace RangeAudit

/-- A violation with the place where it was found, or an issue met on the way. -/
inductive Record
  | located (contract function subject violation interval : String)
  | issue (text : String)
  deriving DecidableEq, Repr

structure Limit where
  word : String
  least : Int
  greatest : Int
  deriving DecidableEq, Repr

def limits : List Limit :=
  [⟨"token_balance", 0, Nat.pow 2 256 - 1⟩, ⟨"price_oracle", 0, Nat.pow 10 36⟩,
    ⟨"leverage_ratio", 1, 100⟩, ⟨"fee", 0, Nat.pow 10 18⟩, ⟨"liquidity", 0, Nat.pow 2 256 - 1⟩,
    ⟨"time_lock", 0, Nat.pow 2 64 - 1⟩, ⟨"slippage", 0, Nat.pow 10 18⟩, ⟨"apy", 0, Nat.pow 10 20⟩,
    ⟨"interest_rate", 0, Nat.pow 10 20⟩, ⟨"collateral_ratio", 0, Nat.pow 10 20⟩]

inductive Violation
  | overflow
  | underflow
  | belowLeast (bound : Number) (least : Int)
  | aboveGreatest (bound : Number) (greatest : Int)
  deriving DecidableEq, Repr

namespace Violation

def text (p : Place) : Violation → String
  | overflow => p.text ++ " 可能溢出 (> 2^256)"
  | underflow => p.text ++ " 可能下溢 (< 0)"
  | belowLeast x least => p.text ++ " 最小值违规 (" ++ x.text ++ " < " ++ toString least ++ ")"
  | aboveGreatest x greatest =>
    p.text ++ " 最大值违规 (" ++ x.text ++ " > " ++ toString greatest ++ ")"

def isWritable : Violation → Bool
  | belowLeast x _ | aboveGreatest x _ => x.isWritable
  | _ => true

def write (v : Violation) (p : Place) : Except Failure String :=
  if v.isWritable then .ok (v.text p) else .error .tooLongToWrite

end Violation

namespace Limit

def violation? (l : Limit) (i : Interval) : Option Violation :=
  match i.lo.filter (·.lt (.int l.least)), i.hi.filter (Number.lt (.int l.greatest) ·) with
  | some x, _ => some (.belowLeast x l.least)
  | none, some x => some (.aboveGreatest x l.greatest)
  | none, none => none

end Limit

namespace Place

/-- The machine word comes first, then the unsigned type, then the limit of a named quantity. -/
def violation? (p : Place) (i : Interval) : Option Violation :=
  if i.isBottom then none
  else if i.hi.any (Number.le (.int (Nat.pow 2 256)) ·) then some .overflow
  else if i.lo.any (·.lt 0) && p.isUnsigned then some .underflow
  else
    (limits.filter fun l => Text.contains (Text.lower p.text) l.word).findSome? (·.violation? i)

end Place

namespace Ranges

def broken (r : Ranges) : List (Place × Interval × Violation) :=
  r.entries.filterMap fun (p, i) => (p.violation? i).map fun v => (p, i, v)

def violations (r : Ranges) (contract function : String) : Except Failure (List Record) :=
  r.broken.mapM fun (p, i, v) => do
    return .located contract function p.text (← v.write p) (← i.write)

end Ranges

end RangeAudit
