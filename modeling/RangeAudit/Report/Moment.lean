import RangeAudit.Failure
import RangeAudit.Json

namespace RangeAudit.Report

def daySeconds : Int := 86400

structure Date where
  year : Int
  month : Int
  day : Int
  deriving DecidableEq, Repr

namespace Date

/-- The year is counted from March, so that the leap day is its last, in cycles of 400 years. -/
def ofDays (days : Int) : Date :=
  let z := days + 719468
  let cycle := z / 146097
  let dayOfCycle := z % 146097
  let yearOfCycle :=
    (dayOfCycle - dayOfCycle / 1460 + dayOfCycle / 36524 - dayOfCycle / 146096) / 365
  let dayOfYear := dayOfCycle - (365 * yearOfCycle + yearOfCycle / 4 - yearOfCycle / 100)
  let shifted := (5 * dayOfYear + 2) / 153
  let day := dayOfYear - (153 * shifted + 2) / 5 + 1
  let month := if shifted < 10 then shifted + 3 else shifted - 9
  let year := yearOfCycle + cycle * 400
  ⟨if month ≤ 2 then year + 1 else year, month, day⟩

def ofSeconds (seconds : Int) : Date :=
  ofDays (seconds / daySeconds)

end Date

def twoDigits (n : Int) : String :=
  if n < 10 then "0" ++ toString n else toString n

def momentText (seconds : Int) : String :=
  let d := Date.ofSeconds seconds
  let time := seconds % daySeconds
  toString d.year ++ "-" ++ twoDigits d.month ++ "-" ++ twoDigits d.day ++ " " ++
    twoDigits (time / 3600) ++ ":" ++ twoDigits (time / 60 % 60) ++ ":" ++ twoDigits (time % 60)

def signedWord32 (n : Int) : Int :=
  Int.bmod n (Nat.pow 2 32)

def fitsSigned (bits : Nat) (n : Int) : Bool :=
  -(Nat.pow 2 (bits - 1)) ≤ n && n < Nat.pow 2 (bits - 1)

/-- The years of the calendar are 1 to 9999. Years are counted from 1900 in a word of 32 bits. -/
def checkYear (seconds : Int) : Except Failure Unit :=
  let year := (Date.ofSeconds seconds).year
  if !fitsSigned 32 (year - 1900) then .error .momentTooLarge
  else
    let year := signedWord32 year
    if 1 ≤ year ∧ year ≤ 9999 then .ok () else .error (.yearOutOfRange year)

def ofSeconds (seconds : Int) : Except Failure String := do
  if !fitsSigned 64 seconds then .error .momentOutOfRange
  checkYear seconds
  checkYear (seconds - daySeconds)
  return momentText seconds

/-- Seconds are rounded to a microsecond, a tie going to the even one, and then cut off. -/
def secondsOf? (x : Binary64) : Option Int := do
  let whole ← x.trunc?
  let fraction := x.sub (.ofInt whole)
  let micros ← match fraction.mul (.ofInt 1000000) with
    | .finite negative m e =>
      let (n, d) := Binary64.scaledRatio m 1 e
      let rounded : Int := Binary64.roundDiv n d
      some (if negative then -rounded else rounded)
    | _ => none
  return if 1000000 ≤ micros then whole + 1 else if micros < 0 then whole - 1 else whole

def ofNumber : Number → Except Failure String
  | .int n => ofSeconds n
  | .truth b => ofSeconds (if b then 1 else 0)
  | .double x =>
    match x with
    | .nan => .error .notAMoment
    | _ =>
      match secondsOf? x with
      | some seconds => ofSeconds seconds
      | none => .error .momentOutOfRange

def moment : Json → Except Failure String
  | .num n => ofNumber n
  | .bool b => ofNumber (.truth b)
  | j => .ok j.display

end RangeAudit.Report
