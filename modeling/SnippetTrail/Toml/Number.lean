import SnippetTrail.Text.Integer

/-!
# Numbers, dates and times

What a value that starts with a sign or a digit may look like. Numbers may have underscores between
digits; an integer must fit 64 bits, and a fraction must not be so large that it rounds to infinity.
-/

namespace SnippetTrail.Toml

/-- Digits of a class with single underscores between them, without the underscores. -/
def digitRun (belongs : Char → Bool) : List Char → List Char × List Char
  | '_' :: c :: rest =>
    if belongs c then
      let (digits, rest) := digitRun belongs rest
      (c :: digits, rest)
    else ([], '_' :: c :: rest)
  | c :: rest =>
    if belongs c then
      let (digits, rest) := digitRun belongs rest
      (c :: digits, rest)
    else ([], c :: rest)
  | [] => ([], [])

def digits? (belongs : Char → Bool) (text : List Char) : Option (List Char × List Char) :=
  if text.head?.any belongs then some (digitRun belongs text) else none

def sign (text : List Char) : Bool × List Char :=
  match text with
  | '+' :: rest => (false, rest)
  | '-' :: rest => (true, rest)
  | _ => (false, text)

def decimal? (text : List Char) : Option (List Char × List Char) :=
  match text with
  | '0' :: rest => some (['0'], rest)
  | _ => digits? Text.isAsciiDigit text

def radixDigit? (radix : Nat) (c : Char) : Option Nat :=
  let value :=
    if '0' ≤ c ∧ c ≤ '9' then c.toNat - 48
    else if 'a' ≤ c ∧ c ≤ 'f' then c.toNat - 87
    else if 'A' ≤ c ∧ c ≤ 'F' then c.toNat - 55
    else 99
  if value < radix then some value else none

def radixValue (radix : Nat) (digits : List Char) : Nat :=
  digits.foldl (fun value c => radix * value + (radixDigit? radix c).getD 0) 0

def inRange? (n : Int) : Option Int := if Text.isSigned64 n then some n else none

def integer? (text : List Char) : Option (Int × List Char) :=
  let prefixed (radix : Nat) (rest : List Char) : Option (Int × List Char) := do
    let (digits, rest) ← digits? (fun c => (radixDigit? radix c).isSome) rest
    pure (← inRange? (radixValue radix digits), rest)
  match text with
  | '0' :: 'x' :: rest => prefixed 16 rest
  | '0' :: 'o' :: rest => prefixed 8 rest
  | '0' :: 'b' :: rest => prefixed 2 rest
  | _ => do
    let (negative, rest) := sign text
    let (digits, rest) ← decimal? rest
    let value : Int := radixValue 10 digits
    pure (← inRange? (if negative then -value else value), rest)

/-- Whether digits with this exponent denote a number that double precision rounds to infinity. -/
def overflows (digits : List Char) (exponent : Int) : Bool :=
  let significant := digits.dropWhile (· == '0')
  if significant.isEmpty then false
  else
    let magnitude := exponent + significant.length
    if magnitude ≤ 308 then false
    else if 310 ≤ magnitude then true
    else
      let value := radixValue 10 significant
      let bound := (1 <<< 1024) - (1 <<< 970)
      if 0 ≤ exponent then bound ≤ value * Nat.pow 10 exponent.toNat
      else bound * Nat.pow 10 (-exponent).toNat ≤ value

def exponent? (text : List Char) : Option (Int × List Char) :=
  match text with
  | e :: rest =>
    if e == 'e' || e == 'E' then do
      let (negative, rest) := sign rest
      let (digits, rest) ← digits? Text.isAsciiDigit rest
      let value : Int := radixValue 10 digits
      pure (if negative then -value else value, rest)
    else none
  | [] => none

def float? (text : List Char) : Option (List Char) :=
  let (negative, unsigned) := sign text
  match unsigned with
  | 'i' :: 'n' :: 'f' :: rest => some rest
  | 'n' :: 'a' :: 'n' :: rest => some rest
  | _ => do
    let (whole, rest) ← decimal? unsigned
    let (fraction, rest) ← match rest with
      | '.' :: behind => digits? Text.isAsciiDigit behind
      | _ => if (exponent? rest).isSome then some ([], rest) else none
    let (exponent, rest) := (exponent? rest).getD (0, rest)
    if !negative && overflows (whole ++ fraction) (exponent - fraction.length) then none else some rest

-- ---------------------------------------------------------------------------
-- Dates and times

def fixedNumber? (width : Nat) (text : List Char) : Option (Nat × List Char) :=
  let digits := text.take width
  if digits.length = width ∧ digits.all Text.isAsciiDigit then
    some (Text.digitsValue digits, text.drop width)
  else none

def expect? (c : Char) : List Char → Option (List Char)
  | d :: rest => if c == d then some rest else none
  | [] => none

def isLeap (year : Nat) : Bool := year % 4 == 0 && (year % 100 != 0 || year % 400 == 0)

def daysIn (year month : Nat) : Nat :=
  if month == 2 then (if isLeap year then 29 else 28)
  else if month ∈ [4, 6, 9, 11] then 30
  else 31

def date? (text : List Char) : Option (List Char) := do
  let (year, rest) ← fixedNumber? 4 text
  let (month, rest) ← fixedNumber? 2 (← expect? '-' rest)
  let (day, rest) ← fixedNumber? 2 (← expect? '-' rest)
  if 1 ≤ month ∧ month ≤ 12 ∧ 1 ≤ day ∧ day ≤ daysIn year month then some rest else none

def time? (text : List Char) : Option (List Char) := do
  let (hour, rest) ← fixedNumber? 2 text
  let (minute, rest) ← fixedNumber? 2 (← expect? ':' rest)
  let (second, rest) ← fixedNumber? 2 (← expect? ':' rest)
  if 23 < hour ∨ 59 < minute ∨ 60 < second then none
  else match rest with
    | '.' :: fraction =>
      if fraction.head?.any Text.isAsciiDigit then some (fraction.dropWhile Text.isAsciiDigit)
      else some rest
    | _ => some rest

def offset? (text : List Char) : Option (List Char) :=
  match text with
  | 'Z' :: rest | 'z' :: rest => some rest
  | '+' :: rest | '-' :: rest => do
    let (hours, rest) ← fixedNumber? 2 rest
    let (minutes, rest) ← fixedNumber? 2 (← expect? ':' rest)
    if 23 < hours ∨ 59 < minutes then none else some rest
  | _ => none

/-- Past a date, a time, or both with an optional offset. -/
def dateTime? (text : List Char) : Option (List Char) :=
  match date? text with
  | some rest =>
    match rest with
    | delimiter :: behind =>
      if delimiter ∈ ['T', 't', ' '] then
        match time? behind with
        | some behind => some ((offset? behind).getD behind)
        | none => some rest
      else some rest
    | [] => some rest
  | none => time? text

end SnippetTrail.Toml
