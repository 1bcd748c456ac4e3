import SnippetTrail.Shell.Filter
import SnippetTrail.Shell.Token
import SnippetTrail.Text.Blank

/-!
# Arithmetic expressions

Expressions over signed numbers of 64 bits, with the usual operators and priorities. Conjunctions,
disjunctions and choices evaluate only the operands that they need.
-/

namespace SnippetTrail.Shell

inductive Symbol where
  | number (n : Int)
  | name (text : String)
  | operator (text : String)
  deriving DecidableEq

inductive Sum where
  | number (n : Int)
  | variable (name : String)
  | unary (operator : String) (operand : Sum)
  | binary (operator : String) (left right : Sum)
  | choose (condition yes no : Sum)
  | assign (name : String) (value : Sum)

namespace Sum

-- ---------------------------------------------------------------------------
-- Reading

def operators : List String :=
  ["<<=", ">>=", "||", "&&", "==", "!=", "<=", ">=", "<<", ">>", "+=", "-=", "*=", "/=", "%=", "&=",
    "|=", "^=", "=", "|", "^", "&", "<", ">", "+", "-", "*", "/", "%", "!", "~", "(", ")", "?", ":"]

/-- Binary operators from the loosest to the tightest. -/
def levels : List (List String) :=
  [["||"], ["&&"], ["|"], ["^"], ["&"], ["==", "!="], ["<=", ">=", "<", ">"], ["<<", ">>"],
    ["+", "-"], ["*", "/", "%"]]

def symbolsFrom : Nat → List Char → Option (List Symbol)
  | 0, _ => none
  | fuel + 1, text =>
    match text with
    | [] => some []
    | c :: rest =>
      if Text.isBlank c then symbolsFrom fuel rest
      else if isNameChar c then
        let run := text.takeWhile isNameChar
        let symbol : Symbol := if Text.isAsciiDigit c then .number (numeral run).1
          else .name (String.ofList run)
        (symbolsFrom fuel (text.drop run.length)).map (symbol :: ·)
      else match startingOne? operators text with
        | some (operator, rest) => (symbolsFrom fuel rest).map (.operator operator :: ·)
        | none => none

abbrev Parse := Except String (Sum × List Symbol)

mutual

def primary : Nat → List Symbol → Parse
  | 0, _ => .error "expecting primary"
  | fuel + 1, symbols =>
    match symbols with
    | .number n :: rest => .ok (.number n, rest)
    | .name name :: rest => .ok (.variable name, rest)
    | .operator "(" :: rest => do
      match ← assignment fuel rest with
      | (inner, .operator ")" :: rest) => pure (inner, rest)
      | _ => .error "expecting ')'"
    | .operator operator :: rest =>
      if operator == "-" || operator == "+" || operator == "!" || operator == "~" then do
        let (operand, rest) ← primary fuel rest
        pure (.unary operator operand, rest)
      else .error "expecting primary"
    | [] => .error "expecting primary"

def level : Nat → List (List String) → List Symbol → Parse
  | 0, _, _ => .error "expecting primary"
  | fuel + 1, [], symbols => primary fuel symbols
  | fuel + 1, operators :: tighter, symbols => do
    let (left, rest) ← level fuel tighter symbols
    continued fuel operators tighter left rest

def continued : Nat → List String → List (List String) → Sum → List Symbol → Parse
  | 0, _, _, _, _ => .error "expecting primary"
  | fuel + 1, operators, tighter, left, symbols =>
    match symbols with
    | .operator operator :: rest =>
      if operators.contains operator then do
        let (right, rest) ← level fuel tighter rest
        continued fuel operators tighter (.binary operator left right) rest
      else .ok (left, symbols)
    | _ => .ok (left, symbols)

def choice : Nat → List Symbol → Parse
  | 0, _ => .error "expecting primary"
  | fuel + 1, symbols => do
    match ← level fuel levels symbols with
    | (condition, .operator "?" :: rest) =>
      match ← assignment fuel rest with
      | (yes, .operator ":" :: rest) =>
        let (no, rest) ← choice fuel rest
        pure (.choose condition yes no, rest)
      | _ => .error "expecting ':'"
    | found => pure found

def assignment : Nat → List Symbol → Parse
  | 0, _ => .error "expecting primary"
  | fuel + 1, symbols =>
    match symbols with
    | .name name :: .operator operator :: rest =>
      if operator == "=" then do
        let (value, rest) ← assignment fuel rest
        pure (.assign name value, rest)
      else
        match Text.stripEnd? ['='] operator.toList with
        | some inner =>
          let inner := String.ofList inner
          if levels.any (·.contains operator) then choice fuel symbols
          else do
            let (value, rest) ← assignment fuel rest
            pure (.assign name (.binary inner (.variable name) value), rest)
        | none => choice fuel symbols
    | _ => choice fuel symbols

end

def ofText (text : List Char) : Except String Sum :=
  match symbolsFrom (text.length + 1) text with
  | none => .error "expecting EOF"
  | some [] => .ok (.number 0)
  | some symbols => do
    match ← assignment (20 * symbols.length + 20) symbols with
    | (sum, []) => pure sum
    | _ => .error "expecting EOF"

-- ---------------------------------------------------------------------------
-- Values

inductive Fault where
  | malformed (reason : String)
  | divisionByZero
  | notANumber (text : String)

abbrev Variables := List (String × String)

def wrap (n : Int) : Int := n.bmod Text.wordCount

def truth (value : Bool) : Int := if value then 1 else 0

def onBits (f : Nat → Nat → Nat) (a b : Int) : Int :=
  wrap (f (a.emod Text.wordCount).toNat (b.emod Text.wordCount).toNat)

def apply (operator : String) (a b : Int) : Except Fault Int :=
  match operator with
  | "|" => .ok (onBits Nat.lor a b)
  | "^" => .ok (onBits Nat.xor a b)
  | "&" => .ok (onBits Nat.land a b)
  | "==" => .ok (truth (a == b))
  | "!=" => .ok (truth (a != b))
  | "<" => .ok (truth (a < b))
  | "<=" => .ok (truth (a ≤ b))
  | ">" => .ok (truth (b < a))
  | ">=" => .ok (truth (b ≤ a))
  | "<<" => .ok (wrap (a <<< (b.emod 64).toNat))
  | ">>" => .ok (a >>> (b.emod 64).toNat)
  | "+" => .ok (wrap (a + b))
  | "-" => .ok (wrap (a - b))
  | "*" => .ok (wrap (a * b))
  | "/" => if b == 0 then .error .divisionByZero else .ok (wrap (a.tdiv b))
  | "%" => if b == 0 then .error .divisionByZero else .ok (a.tmod b)
  | _ => .ok 0

/-- The number that the value of a variable is; one without a value counts as zero. -/
def valueOf (bindings : Variables) (name : String) : Except Fault Int :=
  match bindings.lookup name with
  | none => .ok 0
  | some text =>
    match Text.trim text.toList with
    | [] => .ok 0
    | '-' :: digits => unsigned text digits (-1)
    | '+' :: digits => unsigned text digits 1
    | digits => unsigned text digits 1
where
  unsigned (text : String) (digits : List Char) (sign : Int) : Except Fault Int :=
    match digits with
    | c :: _ =>
      if Text.isAsciiDigit c && (numeral digits).2.isEmpty then .ok (wrap (sign * (numeral digits).1))
      else .error (.notANumber text)
    | [] => .error (.notANumber text)

def eval : Sum → Variables → Except Fault (Int × Variables)
  | .number n, bindings => .ok (wrap n, bindings)
  | .variable name, bindings => do pure (← valueOf bindings name, bindings)
  | .unary operator operand, bindings => do
    let (n, bindings) ← operand.eval bindings
    pure (if operator == "-" then wrap (-n)
      else if operator == "!" then truth (n == 0)
      else if operator == "~" then -n - 1
      else n, bindings)
  | .binary "||" left right, bindings => do
    let (a, bindings) ← left.eval bindings
    if a != 0 then pure (1, bindings)
    else
      let (b, bindings) ← right.eval bindings
      pure (truth (b != 0), bindings)
  | .binary "&&" left right, bindings => do
    let (a, bindings) ← left.eval bindings
    if a == 0 then pure (0, bindings)
    else
      let (b, bindings) ← right.eval bindings
      pure (truth (b != 0), bindings)
  | .binary operator left right, bindings => do
    let (a, bindings) ← left.eval bindings
    let (b, bindings) ← right.eval bindings
    pure (← apply operator a b, bindings)
  | .choose condition yes no, bindings => do
    let (n, bindings) ← condition.eval bindings
    if n != 0 then yes.eval bindings else no.eval bindings
  | .assign name value, bindings => do
    let (n, bindings) ← value.eval bindings
    pure (n, (name, toString n) :: bindings.filter (·.1 != name))

def Fault.message (text : String) : Fault → String
  | .malformed reason => "arithmetic expression: " ++ reason ++ ": \"" ++ text ++ "\""
  | .divisionByZero => "arithmetic expression: division by zero: \"" ++ text ++ "\""
  | .notANumber value => "Illegal number: " ++ value

def evalText (text : String) (bindings : Variables) : Except Fault (Int × Variables) :=
  match ofText text.toList with
  | .error reason => .error (.malformed reason)
  | .ok sum => sum.eval bindings

end Sum

end SnippetTrail.Shell
