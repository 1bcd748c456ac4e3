import SnippetTrail.Text.Integer

/-!
# Points in time

A point in time is a number of seconds since the start of 1970, and its calendar date is proleptic
Gregorian. Times are written as `2023-11-14T22:13:20Z`; a year below 0 or above 9999 has a sign.
-/

namespace SnippetTrail.Timestamp

def daysOfCivil (year month day : Int) : Int :=
  let y := if month ≤ 2 then year - 1 else year
  let era := y.fdiv 400
  let yearOfEra := y - era * 400
  let shifted := if month > 2 then month - 3 else month + 9
  let dayOfYear := (153 * shifted + 2).fdiv 5 + day - 1
  let dayOfEra := yearOfEra * 365 + yearOfEra.fdiv 4 - yearOfEra.fdiv 100 + dayOfYear
  era * 146097 + dayOfEra - 719468

def civilOfDays (days : Int) : Int × Int × Int :=
  let z := days + 719468
  let era := z.fdiv 146097
  let dayOfEra := z - era * 146097
  let yearOfEra := (dayOfEra - dayOfEra.fdiv 1460 + dayOfEra.fdiv 36524 -
    dayOfEra.fdiv 146096).fdiv 365
  let dayOfYear := dayOfEra - (365 * yearOfEra + yearOfEra.fdiv 4 - yearOfEra.fdiv 100)
  let shifted := (5 * dayOfYear + 2).fdiv 153
  let day := dayOfYear - (153 * shifted + 2).fdiv 5 + 1
  let month := if shifted < 10 then shifted + 3 else shifted - 9
  let year := yearOfEra + era * 400
  (if month ≤ 2 then year + 1 else year, month, day)

def earliest : Int := daysOfCivil (-262143) 1 1 * 86400
def latest : Int := daysOfCivil 262142 12 31 * 86400 + 86399

def inRange (seconds : Int) : Bool := earliest ≤ seconds && seconds ≤ latest

def padded (width n : Nat) : List Char :=
  let digits := Text.decimal n
  List.replicate (width - digits.length) '0' ++ digits

def renderYear (year : Int) : List Char :=
  if 0 ≤ year ∧ year ≤ 9999 then padded 4 year.natAbs
  else (if year < 0 then '-' else '+') :: padded 4 year.natAbs

def render (seconds : Int) : String :=
  let days := seconds.fdiv 86400
  let second := (seconds - days * 86400).toNat
  let (year, month, day) := civilOfDays days
  String.ofList (renderYear year ++ ['-'] ++ padded 2 month.toNat ++ ['-'] ++ padded 2 day.toNat ++
    ['T'] ++ padded 2 (second / 3600) ++ [':'] ++ padded 2 (second / 60 % 60) ++ [':'] ++
    padded 2 (second % 60) ++ ['Z'])

end SnippetTrail.Timestamp
