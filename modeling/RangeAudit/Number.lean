import RangeAudit.Failure
import RangeAudit.Number.Shortest
import RangeAudit.Text.Numeral

namespace RangeAudit

inductive Number
  | int (n : Int)
  | truth (b : Bool)
  | double (x : Binary64)
  deriving DecidableEq, Repr, Inhabited

namespace Number

def negInf : Number := .double (.inf true)
def posInf : Number := .double (.inf false)

instance : Coe Int Number := ⟨.int⟩

instance (n : Nat) : OfNat Number n := ⟨.int n⟩

def toInt? : Number → Option Int
  | int n => some n
  | truth b => some (if b then 1 else 0)
  | double _ => none

def kind : Number → String
  | int _ => "int"
  | truth _ => "bool"
  | double _ => "float"

def exact : Number → Binary64
  | int n => .finite (n < 0) n.natAbs 0
  | truth b => .finite false (if b then 1 else 0) 0
  | double x => x

def order (x y : Number) : Option Ordering :=
  x.exact.order y.exact

def lt (x y : Number) : Bool :=
  x.order y == some .lt

def le (x y : Number) : Bool :=
  x.order y == some .lt || x.order y == some .eq

/-- Equality by value: one, true and 1.0 are equal, and a NaN equals nothing. -/
def same (x y : Number) : Bool :=
  x.order y == some .eq

def least (x y : Number) : Number :=
  if y.lt x then y else x

def greatest (x y : Number) : Number :=
  if x.lt y then y else x

def leastOf (x : Number) (xs : List Number) : Number :=
  xs.foldl least x

def greatestOf (x : Number) (xs : List Number) : Number :=
  xs.foldl greatest x

def toDouble (x : Number) : Except Failure Binary64 :=
  match x with
  | int n =>
    match Binary64.ofInt n with
    | .inf _ => .error .tooLargeForDouble
    | d => .ok d
  | truth b => .ok (.ofInt (if b then 1 else 0))
  | double d => .ok d

/-- Exact on integers and truth values, rounded as soon as a double takes part. -/
def arith (f : Int → Int → Int) (g : Binary64 → Binary64 → Binary64) (x y : Number) :
    Except Failure Number :=
  match x.toInt?, y.toInt? with
  | some a, some b => .ok (.int (f a b))
  | _, _ => do
    let a ← x.toDouble
    let b ← y.toDouble
    return .double (g a b)

def add : Number → Number → Except Failure Number :=
  arith (· + ·) .add

def sub : Number → Number → Except Failure Number :=
  arith (· - ·) .sub

def mul : Number → Number → Except Failure Number :=
  arith (· * ·) .mul

def floorDiv (x y : Number) : Except Failure Number :=
  match x.toInt?, y.toInt? with
  | some a, some b => if b = 0 then .error .integerDivisionByZero else .ok (.int (a.fdiv b))
  | _, _ => do
    let a ← x.toDouble
    let b ← y.toDouble
    if b.isZero then .error .doubleDivisionByZero else return .double (a.floorDiv b)

def neg : Number → Number
  | double x => .double x.neg
  | x => .int (-(x.toInt?.getD 0))

def abs : Number → Number
  | double x => .double x.abs
  | x => .int (x.toInt?.getD 0).natAbs

def succ : Number → Number
  | double x => .double (x.add .one)
  | x => .int (x.toInt?.getD 0 + 1)

def pred : Number → Number
  | double x => .double (x.sub .one)
  | x => .int (x.toInt?.getD 0 - 1)

def trunc : Number → Except Failure Int
  | double .nan => .error .notANumber
  | double (.inf _) => .error .infiniteInteger
  | double x => .ok (x.trunc?.getD 0)
  | x => .ok (x.toInt?.getD 0)

def placeLimit : Nat := Nat.pow 2 61 - 7

/-- The places of thirty bits that a shift sets up: those of the integer and of the count. -/
def shiftedPlaces (n : Int) (count : Nat) : Nat :=
  n.natAbs.log2 / 30 + 1 + (count + 29) / 30

/-- An integer times a power of two; zero and a count of zero need no new places. -/
def shiftLeftInt (memory? : Option Nat) (n count : Int) : Except Failure Int :=
  if count < 0 then .error .negativeShift
  else if n = 0 ∨ count = 0 then .ok n
  else if placeLimit < shiftedPlaces n count.toNat then .error .tooManyDigits
  else if memory?.any (· < shiftedPlaces n count.toNat) then .error .outOfMemory
  else .ok (n * Nat.pow 2 count.toNat)

def shiftRightInt (n count : Int) : Except Failure Int :=
  if count < 0 then .error .negativeShift
  else if n.natAbs.log2 + 1 < count.toNat then .ok (if n < 0 then -1 else 0)
  else .ok (n.fdiv (Nat.pow 2 count.toNat))

def shift (symbol : String) (f : Int → Int → Except Failure Int) (x y : Number) :
    Except Failure Number :=
  match x.toInt?, y.toInt? with
  | some a, some b => do return .int (← f a b)
  | _, _ => .error (.operandKinds symbol x.kind y.kind)

def shiftLeft (memory? : Option Nat) : Number → Number → Except Failure Number :=
  shift "<<" (shiftLeftInt memory?)

def shiftRight : Number → Number → Except Failure Number :=
  shift ">>" shiftRightInt

/-- Two to the given power; a negative or a double exponent gives a double. -/
def twoPow (x : Number) : Number :=
  match x.toInt? with
  | some n =>
    if 0 ≤ n then .int (Nat.pow 2 n.toNat)
    else if n < Binary64.leastExponent then .double (.zero false)
    else .double (Binary64.ofRatio false 1 (Nat.pow 2 (-n).toNat))
  | none => .double (Binary64.pow (.ofInt 2) x.exact)

/-- A natural power; the powers of zero and one are read off without multiplying. -/
def natPow (base exponent : Nat) : Nat :=
  if base ≤ 1 then (if exponent = 0 then 1 else base) else Nat.pow base exponent

/-- The integer part of a power; `none` if a double result is not finite. -/
def powInt? (x y : Number) : Option Int :=
  match x.toInt?, y.toInt? with
  | some a, some b => some (natPow a.toNat b.toNat)
  | _, _ =>
    match x.toDouble, y.toDouble with
    | .ok a, .ok b => (a.pow b).trunc?
    | _, _ => none

def parityIs (x : Number) (r : Int) : Bool :=
  match x.toInt? with
  | some n => n.fmod 2 = r
  | none => (Number.double (x.exact.floorMod (.ofInt 2))).same (.int r)

/-- Positional notation as long as the point is near the digits, and else an exponent. -/
def digitsText (digits : List Char) (point : Int) : List Char :=
  let n : Int := digits.length
  if point ≤ -4 ∨ 16 < point then
    let e := point - 1
    let mark := if e < 0 then ['e', '-'] else ['e', '+']
    let size := Nat.toDigits 10 e.natAbs
    let size := if size.length < 2 then '0' :: size else size
    (match digits with
      | [] => []
      | [d] => [d]
      | d :: rest => d :: '.' :: rest) ++ mark ++ size
  else if point ≤ 0 then
    '0' :: '.' :: List.replicate (-point).toNat '0' ++ digits
  else if n ≤ point then
    digits ++ List.replicate (point - n).toNat '0' ++ ['.', '0']
  else digits.take point.toNat ++ '.' :: digits.drop point.toNat

def doubleText : Binary64 → String
  | .nan => "nan"
  | .inf negative => if negative then "-inf" else "inf"
  | .finite negative m e =>
    let body :=
      if m = 0 then ['0', '.', '0']
      else
        let (digits, exponent) := (Binary64.shortest m e).normalize
        digitsText digits (exponent + digits.length)
    String.ofList (if negative then '-' :: body else body)

def text : Number → String
  | int n => toString n
  | truth b => if b then "True" else "False"
  | double x => doubleText x

/-- Magnitudes from here on have more decimal digits than are written. -/
def writtenBelow : Nat := Nat.pow 10 Text.digitLimit

def isWritable : Number → Bool
  | int n => n.natAbs < writtenBelow
  | _ => true

@[simp]
theorem order_int (a b : Int) : order (.int a) (.int b) = some (compare a b) := by
  have signed (n : Int) : Binary64.signed (decide (n < 0)) n.natAbs = n := by
    simp only [Binary64.signed, decide_eq_true_eq]
    split <;> omega
  simp [order, exact, Binary64.order, Binary64.rescale, signed]

@[simp]
theorem lt_int (a b : Int) : lt (.int a) (.int b) = decide (a < b) := by
  simp only [lt, order_int]
  by_cases h : a < b
  · simp [h, compare, compareOfLessAndEq]
  · by_cases he : a = b <;> simp [h, he, compare, compareOfLessAndEq]

@[simp]
theorem le_int (a b : Int) : le (.int a) (.int b) = decide (a ≤ b) := by
  simp only [le, order_int]
  rcases Int.lt_trichotomy a b with h | h | h
  · simp [h, compare, compareOfLessAndEq, Int.le_of_lt h]
  · simp [h, compare, compareOfLessAndEq]
  · have h1 : ¬ a < b := by omega
    have h2 : a ≠ b := by omega
    have h3 : ¬ a ≤ b := by omega
    simp [h1, h2, h3, compare, compareOfLessAndEq]

@[simp]
theorem same_int (a b : Int) : same (.int a) (.int b) = decide (a = b) := by
  simp only [same, order_int]
  rcases Int.lt_trichotomy a b with h | h | h
  · have h2 : a ≠ b := by omega
    simp [h, h2, compare, compareOfLessAndEq]
  · simp [h, compare, compareOfLessAndEq]
  · have h1 : ¬ a < b := by omega
    have h2 : a ≠ b := by omega
    simp [h1, h2, compare, compareOfLessAndEq]

end Number

end RangeAudit
