import RangeAudit.Number.Binary64

namespace RangeAudit

/-- The positive number `coefficient * 10 ^ exponent`. -/
structure Decimal where
  coefficient : Nat
  exponent : Int
  deriving DecidableEq, Repr

namespace Decimal

def normalize (d : Decimal) : List Char × Int :=
  let digits := Nat.toDigits 10 d.coefficient
  let kept := (digits.reverse.dropWhile (· == '0')).reverse
  (kept, d.exponent + (digits.length - kept.length : Nat))

end Decimal

namespace Binary64

/-- The reals that round to a double, over a common denominator. -/
structure Rounding where
  value : Nat
  low : Nat
  high : Nat
  denominator : Nat
  closed : Bool

/-- The reals that round to `m * 2 ^ e`; below a power of two neighbours are twice as close. -/
def rounding (m : Nat) (e : Int) : Rounding :=
  let low := if m = Nat.pow 2 52 ∧ leastExponent < e then 4 * m - 1 else 4 * m - 2
  let scale (n : Nat) : Nat := (scaledRatio n 1 (e - 2)).1
  ⟨scale (4 * m), scale low, scale (4 * m + 2), (scaledRatio 1 1 (e - 2)).2, m % 2 == 0⟩

def Rounding.accepts (r : Rounding) (n d : Nat) : Bool :=
  if r.closed then r.low * d ≤ n * r.denominator && n * r.denominator ≤ r.high * d
  else r.low * d < n * r.denominator && n * r.denominator < r.high * d

/-- The nearer multiple of `10 ^ k` that reads back; a tie goes to the even one. -/
def Rounding.onGrid? (r : Rounding) (k : Int) : Option Nat :=
  let (un, ud) : Nat × Nat := if 0 ≤ k then (Nat.pow 10 k.toNat, 1) else (1, Nat.pow 10 (-k).toNat)
  let n := r.value * ud
  let d := r.denominator * un
  let below := n / d
  let above := below + 1
  match r.accepts (below * un) ud && below != 0, r.accepts (above * un) ud with
  | true, true =>
    let rest := n % d
    some (if 2 * rest < d ∨ (2 * rest = d ∧ below % 2 = 0) then below else above)
  | true, false => some below
  | false, true => some above
  | false, false => none

/-- The number of digits before the point of `n / d`, negative for zeros that follow it. -/
def magnitude (n d : Nat) : Int :=
  if d ≤ n then (Nat.toDigits 10 (n / d)).length
  else 1 - (Nat.toDigits 10 ((d - 1) / n)).length

def Rounding.search (r : Rounding) (places : Int) : Nat → Nat → Decimal
  | 0, digits => ⟨(r.onGrid? (places - digits)).getD 0, places - digits⟩
  | fuel + 1, digits =>
    match r.onGrid? (places - digits) with
    | some c => ⟨c, places - digits⟩
    | none => r.search places fuel (digits + 1)

def shortest (m : Nat) (e : Int) : Decimal :=
  let r := rounding m e
  r.search (magnitude r.value r.denominator) 17 1

end Binary64

end RangeAudit
