import RangeAudit.Text.Quoted

namespace RangeAudit

inductive Failure
  /-- A thing of the kind `owner` has no part called `part`. -/
  | missing (owner part : String)
  | operandKinds (operator left right : String)
  | notOrdered (operator left right : String)
  | emptyChoice (choice : String)
  | negativeShift
  | tooManyDigits
  | outOfMemory
  | tooLargeForDouble
  | notANumber
  | infiniteInteger
  | integerDivisionByZero
  | doubleDivisionByZero
  | badNumeral (text : String)
  | badDecimal (text : String)
  | numeralTooLong (digits : Nat)
  | tooLongToWrite
  | malformed
  | tooDeep (kind : String)
  | missingField (name : String)
  | noFields (kind : String)
  | noItems (kind : String)
  | notAKey (kind : String)
  | yearOutOfRange (year : Int)
  | momentOutOfRange
  | momentTooLarge
  | notAMoment
  | noSuchFile (path : String)
  | isDirectory (path : String)
  | nameTooLong (path : String)
  | noPath
  /-- Part `index` of a mapping list has `size` sides where there should be two. -/
  | notAPair (index size : Nat)
  | lookupFailed
  | unmapped
  | reported (text : String)
  deriving DecidableEq, Repr

namespace Failure

/-- How many characters of a text are shown that is no numeral, the opening quote among them. -/
def excerptLength : Nat := 200

def message : Failure → String
  | missing owner part => "'" ++ owner ++ "' object has no attribute '" ++ part ++ "'"
  | operandKinds op l r =>
    "unsupported operand type(s) for " ++ op ++ ": '" ++ l ++ "' and '" ++ r ++ "'"
  | notOrdered op l r =>
    "'" ++ op ++ "' not supported between instances of '" ++ l ++ "' and '" ++ r ++ "'"
  | emptyChoice choice => choice ++ "() arg is an empty sequence"
  | negativeShift => "negative shift count"
  | tooManyDigits => "too many digits in integer"
  | outOfMemory => ""
  | tooLargeForDouble => "int too large to convert to float"
  | notANumber => "cannot convert float NaN to integer"
  | infiniteInteger => "cannot convert float infinity to integer"
  | integerDivisionByZero => "integer division or modulo by zero"
  | doubleDivisionByZero => "float floor division by zero"
  | badNumeral text =>
    "invalid literal for int() with base 10: " ++
      String.ofList ((Text.quoted text).toList.take excerptLength)
  | badDecimal text => "could not convert string to float: " ++ Text.quoted text
  | numeralTooLong digits =>
    "Exceeds the limit (4300 digits) for integer string conversion: value has " ++
      toString digits ++ " digits; use sys.set_int_max_str_digits() to increase the limit"
  | tooLongToWrite =>
    "Exceeds the limit (4300 digits) for integer string conversion; " ++
      "use sys.set_int_max_str_digits() to increase the limit"
  | malformed => "the text is not JSON"
  | tooDeep kind =>
    "maximum recursion depth exceeded while decoding a JSON " ++ kind ++ " from a unicode string"
  | missingField name => Text.quoted name
  | noFields kind => "'" ++ kind ++ "' object has no fields"
  | noItems kind => "'" ++ kind ++ "' object is not iterable"
  | notAKey kind => "unhashable type: '" ++ kind ++ "'"
  | yearOutOfRange year => "year " ++ toString year ++ " is out of range"
  | momentOutOfRange => "timestamp out of range for platform time_t"
  | momentTooLarge => "[Errno 75] Value too large for defined data type"
  | notAMoment => "Invalid value NaN (not a number)"
  | noSuchFile path => "[Errno 2] No such file or directory: " ++ Text.quoted path
  | isDirectory path => "[Errno 21] Is a directory: " ++ Text.quoted path
  | nameTooLong path => "[Errno 36] File name too long: " ++ Text.quoted path
  | noPath => "no path was given"
  | notAPair index size =>
    "dictionary update sequence element #" ++ toString index ++ " has length " ++ toString size ++
      "; 2 is required"
  | lookupFailed => "lookup failed"
  | unmapped => "no source mapping"
  | reported text => text

end Failure

end RangeAudit
