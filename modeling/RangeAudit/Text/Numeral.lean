import RangeAudit.Text.Digit
import RangeAudit.Text.Search

namespace RangeAudit.Text

/-- The ASCII form of a character of a numeral; what cannot stand in a numeral becomes `?`. -/
def numeralChar (c : Char) : Char :=
  if c.toNat < 127 then c
  else if isBlank c then ' '
  else match decimalValue? c with
    | some d => Char.ofNat (48 + d)
    | none => '?'

def digitValue? (base : Nat) (c : Char) : Option Nat :=
  let value :=
    if '0' ≤ c ∧ c ≤ '9' then c.toNat - 48
    else if 'a' ≤ c ∧ c ≤ 'f' then c.toNat - 87
    else if 'A' ≤ c ∧ c ≤ 'F' then c.toNat - 55
    else 16
  if value < base then some value else none

def digitsAfter? (base value : Nat) : List Char → Option Nat
  | [] => some value
  | '_' :: c :: rest => do digitsAfter? base (value * base + (← digitValue? base c)) rest
  | c :: rest => do digitsAfter? base (value * base + (← digitValue? base c)) rest

/-- The value of a non-empty run of digits with single underscores between them. -/
def digits? (base : Nat) : List Char → Option Nat
  | [] => none
  | c :: rest => do digitsAfter? base (← digitValue? base c) rest

def dropHexMark : List Char → List Char
  | '0' :: 'x' :: '_' :: rest => rest
  | '0' :: 'X' :: '_' :: rest => rest
  | '0' :: 'x' :: rest => rest
  | '0' :: 'X' :: rest => rest
  | s => s

def magnitude? (base : Nat) (s : List Char) : Option Nat :=
  digits? base (if base = 16 then dropHexMark s else s)

def integer? (base : Nat) (s : String) : Option Int :=
  match trim isAsciiBlank (s.toList.map numeralChar) with
  | '+' :: rest => (magnitude? base rest).map Int.ofNat
  | '-' :: rest => (magnitude? base rest).map fun n => -Int.ofNat n
  | s => (magnitude? base s).map Int.ofNat

def digitLimit : Nat := 4300

def digitCount (s : String) : Nat :=
  (s.toList.filter isDecimal).length

def unsigned : List Char → List Char
  | '+' :: rest => rest
  | '-' :: rest => rest
  | s => s

def isDecimalDigit (c : Char) : Bool :=
  (digitValue? 10 c).isSome

/-- The count stops at what has no place in a numeral; an underscore needs a digit behind it. -/
def countAfter? (count : Nat) : List Char → Option Nat
  | [] => some count
  | '_' :: c :: rest => if isDecimalDigit c then countAfter? (count + 1) rest else none
  | c :: rest =>
    if isDecimalDigit c then countAfter? (count + 1) rest
    else if c = '_' then none
    else some count

/-- How many digits the decimal numeral has that a text begins with. -/
def leadingDigits (s : String) : Nat :=
  match unsigned (trim isAsciiBlank (s.toList.map numeralChar)) with
  | [] => 0
  | c :: rest => if isDecimalDigit c then (countAfter? 1 rest).getD 0 else 0

def decimalInteger? (s : String) : Option Int :=
  if digitCount s ≤ digitLimit then integer? 10 s else none

def hexInteger? (s : String) : Option Int :=
  integer? 16 s

def digitsBehind? (stem : List Char) : List Char → Option (List Char)
  | [] => none
  | c :: s =>
    if stem.isPrefixOf (c :: s) then
      match ((c :: s).drop stem.length).takeWhile isDecimal with
      | [] => digitsBehind? stem s
      | digits => some digits
    else digitsBehind? stem s

def decimalNumber (digits : List Char) : Nat :=
  digits.foldl (fun n d => n * 10 + (decimalValue? d).getD 0) 0

end RangeAudit.Text
