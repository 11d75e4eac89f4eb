import RangeAudit.Json

namespace RangeAudit.Json

def isSpace (c : Char) : Bool :=
  c == ' ' || c == '\t' || c == '\n' || c == '\r'

def skipSpace (s : List Char) : List Char :=
  s.dropWhile isSpace

def after? (word : String) (s : List Char) : Option (List Char) :=
  if word.toList.isPrefixOf s then some (s.drop word.length) else none

def hexValue? (c : Char) : Option Nat :=
  if '0' ≤ c ∧ c ≤ '9' then some (c.toNat - 48)
  else if 'a' ≤ c ∧ c ≤ 'f' then some (c.toNat - 87)
  else if 'A' ≤ c ∧ c ≤ 'F' then some (c.toNat - 55)
  else none

def escape? (c : Char) : Option Nat :=
  match c with
  | '\x22' => some 34
  | '\\' => some 92
  | '/' => some 47
  | 'b' => some 8
  | 'f' => some 12
  | 'n' => some 10
  | 'r' => some 13
  | 't' => some 9
  | _ => none

/-- The code units up to the closing quote, collected in reverse, and what follows it. -/
def textUnits? (units : List Nat) : List Char → Option (List Nat × List Char)
  | [] => none
  | c :: rest =>
    if c = '\x22' then some (units.reverse, rest)
    else if c = '\\' then
      match rest with
      | 'u' :: a :: b :: c :: d :: rest => do
        let unit := (((← hexValue? a) * 16 + (← hexValue? b)) * 16 + (← hexValue? c)) * 16 +
          (← hexValue? d)
        textUnits? (unit :: units) rest
      | e :: rest => do textUnits? ((← escape? e) :: units) rest
      | [] => none
    else if c.toNat < 32 then none
    else textUnits? (c.toNat :: units) rest

/-- Two halves of a pair make one character, and a half on its own is replaced. -/
def charsOfUnits : List Nat → List Char
  | [] => []
  | [u] => [if 0xD800 ≤ u ∧ u < 0xE000 then Char.ofNat 0xFFFD else Char.ofNat u]
  | u :: v :: rest =>
    if 0xD800 ≤ u ∧ u < 0xDC00 ∧ 0xDC00 ≤ v ∧ v < 0xE000 then
      Char.ofNat (0x10000 + (u - 0xD800) * 0x400 + (v - 0xDC00)) :: charsOfUnits rest
    else
      (if 0xD800 ≤ u ∧ u < 0xE000 then Char.ofNat 0xFFFD else Char.ofNat u) ::
        charsOfUnits (v :: rest)

def text? (s : List Char) : Option (String × List Char) := do
  let (units, rest) ← textUnits? [] s
  return (String.ofList (charsOfUnits units), rest)

def isDigit (c : Char) : Bool :=
  '0' ≤ c && c ≤ '9'

def digitsValue (s : List Char) : Nat :=
  s.foldl (fun n c => n * 10 + (c.toNat - 48)) 0

def wholeDigits (s : List Char) : List Char × List Char :=
  match s with
  | '0' :: rest => (['0'], rest)
  | s => (s.takeWhile isDigit, s.dropWhile isDigit)

def fraction (s : List Char) : List Char × List Char :=
  match s with
  | '.' :: rest =>
    match rest.takeWhile isDigit with
    | [] => ([], s)
    | digits => (digits, rest.dropWhile isDigit)
  | s => ([], s)

def exponentDigits? (s : List Char) : Option (Bool × List Char × List Char) :=
  let (negative, s) : Bool × List Char := match s with
    | '-' :: rest => (true, rest)
    | '+' :: rest => (false, rest)
    | s => (false, s)
  match s.takeWhile isDigit with
  | [] => none
  | digits => some (negative, digits, s.dropWhile isDigit)

def exponent? (s : List Char) : Option (Int × List Char) :=
  match s with
  | c :: rest =>
    if c = 'e' ∨ c = 'E' then
      (exponentDigits? rest).map fun (negative, digits, rest) =>
        (if negative then -(digitsValue digits : Int) else digitsValue digits, rest)
    else none
  | [] => none

def wellFormed {α : Type} : Option α → Except Failure α
  | some a => .ok a
  | none => .error .malformed

def readInteger (negative : Bool) (digits : List Char) : Except Failure Number :=
  if digits.length ≤ Text.digitLimit then
    .ok (.int (if negative then -(digitsValue digits : Int) else digitsValue digits))
  else .error (.numeralTooLong digits.length)

def readMagnitude (negative : Bool) (s : List Char) : Except Failure (Number × List Char) :=
  match wholeDigits s with
  | ([], _) => .error .malformed
  | (whole, rest) =>
    let (decimals, rest) := fraction rest
    let double (e : Int) : Number :=
      .double (.ofDecimal negative (digitsValue (whole ++ decimals)) (e - decimals.length))
    match exponent? rest with
    | some (e, rest) => .ok (double e, rest)
    | none =>
      if decimals.isEmpty then do return (← readInteger negative whole, rest)
      else .ok (double 0, rest)

def readNumber (s : List Char) : Except Failure (Number × List Char) :=
  match s with
  | '-' :: rest =>
    match after? "Infinity" rest with
    | some rest => .ok (.negInf, rest)
    | none => readMagnitude true rest
  | s => readMagnitude false s

def word? (s : List Char) : Option (Json × List Char) :=
  [("null", Json.null), ("true", .bool true), ("false", .bool false),
    ("NaN", .num (.double .nan)), ("Infinity", .num .posInf)].findSome? fun (word, value) =>
      (after? word s).map (value, ·)

def depthLimit : Nat := 989

mutual

/-- A value at the start of a text; each value, item and field uses up one unit of fuel. -/
def readValue (depth : Nat) : Nat → List Char → Except Failure (Json × List Char)
  | 0, _ => .error .malformed
  | fuel + 1, s =>
    match s with
    | '\x22' :: rest => do
      let (t, rest) ← wellFormed (text? rest)
      return (.str t, rest)
    | '[' :: rest =>
      match depth, skipSpace rest with
      | 0, _ => .error (.tooDeep "array")
      | _, ']' :: rest => .ok (.arr [], rest)
      | depth + 1, rest => do
        let (items, rest) ← readItems depth fuel [] rest
        return (.arr items, rest)
    | '\x7b' :: rest =>
      match depth, skipSpace rest with
      | 0, _ => .error (.tooDeep "object")
      | _, '\x7d' :: rest => .ok (.obj [], rest)
      | depth + 1, rest => do
        let (fields, rest) ← readFields depth fuel [] rest
        return (.ofFields fields, rest)
    | s =>
      match word? s with
      | some found => .ok found
      | none => do
        let (n, rest) ← readNumber s
        return (.num n, rest)

def readItems (depth : Nat) :
    Nat → List Json → List Char → Except Failure (List Json × List Char)
  | 0, _, _ => .error .malformed
  | fuel + 1, before, s => do
    let (item, rest) ← readValue depth fuel s
    match skipSpace rest with
    | ',' :: rest => readItems depth fuel (item :: before) (skipSpace rest)
    | ']' :: rest => return ((item :: before).reverse, rest)
    | _ => .error .malformed

def readFields (depth : Nat) :
    Nat → List (String × Json) → List Char → Except Failure (List (String × Json) × List Char)
  | 0, _, _ => .error .malformed
  | fuel + 1, before, '\x22' :: rest => do
    let (key, rest) ← wellFormed (text? rest)
    match skipSpace rest with
    | ':' :: rest =>
      let (value, rest) ← readValue depth fuel (skipSpace rest)
      match skipSpace rest with
      | ',' :: rest => readFields depth fuel ((key, value) :: before) (skipSpace rest)
      | '\x7d' :: rest => return (((key, value) :: before).reverse, rest)
      | _ => .error .malformed
    | _ => .error .malformed
  | _ + 1, _, _ => .error .malformed

end

/-- A bracket may be all that a value and the first of its items take from the text. -/
def fuelFor (length : Nat) : Nat :=
  2 * length + 1

def parse (s : String) : Except Failure Json := do
  let chars := s.toList
  let (j, rest) ← readValue depthLimit (fuelFor chars.length) (skipSpace chars)
  if (skipSpace rest).isEmpty then return j else .error .malformed

end RangeAudit.Json
