import RangeAudit.Number
import RangeAudit.Text.Numeral
import RangeAudit.Text.Search

namespace RangeAudit

namespace Binary64

/-- The digits of a run, which may be empty, without the single underscores between them. -/
def plainDigits? (s : List Char) : Option (List Char) :=
  if s.isEmpty then some [] else (Text.digits? 10 s).map fun _ => s.filter (· != '_')

def splitAtFirst (isMark : Char → Bool) (s : List Char) : List Char × Option (List Char) :=
  match s.dropWhile (!isMark ·) with
  | [] => (s, none)
  | _ :: rest => (s.takeWhile (!isMark ·), some rest)

def exponentOf? : Option (List Char) → Option Int
  | none => some 0
  | some ('-' :: digits) => (Text.digits? 10 digits).map fun n => -(n : Int)
  | some ('+' :: digits) => (Text.digits? 10 digits).map Int.ofNat
  | some digits => (Text.digits? 10 digits).map Int.ofNat

def magnitudeOfText? (negative : Bool) (s : List Char) : Option Binary64 := do
  let (body, exponentPart) := splitAtFirst (fun c => c == 'e' || c == 'E') s
  let (whole, decimals?) := splitAtFirst (· == '.') body
  let whole ← plainDigits? whole
  let decimals ← plainDigits? (decimals?.getD [])
  let coefficient ← Text.digits? 10 (whole ++ decimals)
  let exponent ← exponentOf? exponentPart
  return ofDecimal negative coefficient (exponent - decimals.length)

def ofText? (s : String) : Option Binary64 :=
  match s with
  | "inf" => some (.inf false)
  | "-inf" => some (.inf true)
  | "nan" => some .nan
  | s =>
    match Text.trim Text.isAsciiBlank (s.toList.map Text.numeralChar) with
    | '-' :: rest => magnitudeOfText? true rest
    | '+' :: rest => magnitudeOfText? false rest
    | chars => magnitudeOfText? false chars

end Binary64

namespace Number

/-- The digits of a numeral are counted before what has no place in a numeral is met. -/
def readInteger (s : String) : Except Failure Int :=
  if Text.digitLimit < Text.leadingDigits s then .error (.numeralTooLong (Text.leadingDigits s))
  else
    match Text.decimalInteger? s with
    | some n => .ok n
    | none => .error (.badNumeral s)

def readDouble (s : String) : Except Failure Binary64 :=
  match Binary64.ofText? s with
  | some x => .ok x
  | none => .error (.badDecimal s)

/-- A text with a point or one of the names is a double, and any other is an integer. -/
def ofText (s : String) : Except Failure Number := do
  if Text.contains s "." || ["inf", "-inf", "nan"].contains s then return .double (← readDouble s)
  else return .int (← readInteger s)

end Number

end RangeAudit
