import SnippetTrail.Shell.Token

/-!
# Scripts

The structure of a script: simple commands and the ways to combine them. A script is read one complete
line of commands at a time, because what precedes a fault still runs.
-/

namespace SnippetTrail.Shell

inductive RedirectKind where
  | read
  | write
  | extend
  | same
  | text
  deriving DecidableEq

structure Redirect where
  descriptor : Nat
  kind : RedirectKind
  target : Word

inductive Script where
  | nothing
  | simple (line : Nat) (assignments : List (String × Word)) (words : List Word)
      (redirects : List Redirect)
  | pipe (left right : Script)
  | both (left right : Script)
  | either (left right : Script)
  | opposite (script : Script)
  | sequence (first second : Script)
  | choose (condition yes no : Script)
  /-- Repeats while the condition succeeds, or until it does. -/
  | loop (untilTrue : Bool) (condition body : Script)
  | each (name : String) (words : List Word) (body : Script)
  | select (word : Word) (arms : List (List Word × Script))
  /-- Changes to the shell itself end with the script. -/
  | isolated (script : Script)
  | background (script : Script)
  | redirected (script : Script) (redirects : List Redirect)
  | define (name : String) (body : Script)

structure SyntaxFault where
  line : Nat
  reason : String

namespace Script

structure Input where
  lexemes : List Lexeme
  bodies : List Word

abbrev Parse := Except SyntaxFault (Script × Input)

namespace Input

def lexeme (input : Input) : Lexeme := input.lexemes.head?.getD ⟨1, .finish⟩

def token (input : Input) : Token := input.lexeme.token

def tail (input : Input) : Input := { input with lexemes := input.lexemes.tail }

def skipLines (input : Input) : Input :=
  { input with lexemes := input.lexemes.dropWhile (·.token == .newline) }

end Input

def keyword? : Token → Option String
  | .word [.plain text] => some (String.ofList text)
  | _ => none

def Input.skipKeyword? (text : String) (input : Input) : Option Input :=
  if keyword? input.token == some text then some input.tail else none

def Input.skipOperator? (text : String) (input : Input) : Option Input :=
  if input.token == .operator text then some input.tail else none

-- ---------------------------------------------------------------------------
-- Faults

def closers : List String := ["then", "else", "elif", "fi", "do", "done", "esac", "\x7d"]

def keywords : List String := ["if", "while", "until", "for", "case", "in", "\x7b", "!"] ++ closers

def isCloser (token : Token) : Bool :=
  token == .operator ")" || token == .operator ";;" || (keyword? token).any closers.contains

def inQuotes (text : String) : String := "\"" ++ text ++ "\""

def tokenText : Token → String
  | .finish => "end of file"
  | .newline => "newline"
  | .operator text => inQuotes text
  | .redirect .. | .document _ => "redirection"
  | .fault reason => reason
  | .word [.plain text] =>
    if keywords.contains (String.ofList text) then inQuotes (String.ofList text) else "word"
  | .word _ => "word"

def Input.unexpected (input : Input) (expecting : Option String) : SyntaxFault :=
  let reason := match input.token with
    | .fault reason => reason
    | token => tokenText token ++ " unexpected" ++
      match expecting with
      | some text => " (expecting " ++ inQuotes text ++ ")"
      | none => ""
  ⟨input.lexeme.line, reason⟩

def Input.keyword (text : String) (input : Input) : Except SyntaxFault Input :=
  match input.skipKeyword? text with
  | some input => .ok input
  | none => .error (input.unexpected (some text))

def Input.operator (text : String) (input : Input) : Except SyntaxFault Input :=
  match input.skipOperator? text with
  | some input => .ok input
  | none => .error (input.unexpected (some text))

-- ---------------------------------------------------------------------------
-- Simple commands

def redirectKind : String → RedirectKind
  | ">" | ">|" => .write
  | ">>" => .extend
  | "<" => .read
  | _ => .same

def redirect? (input : Input) : Option (Redirect × Input) :=
  match input.lexemes with
  | ⟨_, .redirect descriptor text⟩ :: ⟨_, .word word⟩ :: rest =>
    some (⟨descriptor, redirectKind text, word⟩, { input with lexemes := rest })
  | ⟨_, .document descriptor⟩ :: rest =>
    match input.bodies with
    | body :: bodies => some (⟨descriptor, .text, body⟩, ⟨rest, bodies⟩)
    | [] => none
  | _ => none

def redirects : Nat → Input → List Redirect × Input
  | 0, input => ([], input)
  | fuel + 1, input =>
    match redirect? input with
    | some (redirect, input) =>
      let (more, input) := redirects fuel input
      (redirect :: more, input)
    | none => ([], input)

def assignment? : Word → Option (String × Word)
  | .plain text :: parts => do
    let (name, value) ← Text.splitOnce? '=' text
    let c ← name.head?
    if isNameStart c && name.all isNameChar then
      pure (String.ofList name, withHome (if value.isEmpty then parts else .plain value :: parts))
    else none
  | _ => none

def simpleFrom : Nat → Nat → List (String × Word) → List Word → List Redirect → Input → Parse
  | 0, _, _, _, _, input => .error (input.unexpected none)
  | fuel + 1, line, assignments, words, redirects, input =>
    match redirect? input with
    | some (redirect, input) =>
      simpleFrom fuel line assignments words (redirects ++ [redirect]) input
    | none =>
      match input.token with
      | .word word =>
        let line := if words.isEmpty then input.lexeme.line else line
        match words, assignment? word with
        | [], some assignment =>
          simpleFrom fuel line (assignments ++ [assignment]) [] redirects input.tail
        | _, _ => simpleFrom fuel line assignments (words ++ [word]) redirects input.tail
      | .redirect .. => .error (input.tail.unexpected none)
      | .fault _ => .error (input.unexpected none)
      | _ =>
        if assignments.isEmpty && words.isEmpty && redirects.isEmpty then
          .error (input.unexpected none)
        else .ok (.simple line assignments words redirects, input)

def listedWords : Nat → Input → List Word × Input
  | 0, input => ([], input)
  | fuel + 1, input =>
    match input.token with
    | .word word =>
      let (words, input) := listedWords fuel input.tail
      (word :: words, input)
    | _ => ([], input)

def patterns : Nat → Input → Except SyntaxFault (List Word × Input)
  | 0, input => .error (input.unexpected none)
  | fuel + 1, input =>
    match input.token with
    | .word word => match input.tail.skipOperator? "|" with
      | some input => do
        let (words, input) ← patterns fuel input
        pure (word :: words, input)
      | none => do pure ([word], ← input.tail.operator ")")
    | _ => .error (input.unexpected none)

def definition? (input : Input) : Option (String × Input) :=
  match input.lexemes with
  | ⟨_, .word [.plain name]⟩ :: ⟨_, .operator "("⟩ :: ⟨_, .operator ")"⟩ :: rest =>
    if name.all isNameChar then some (String.ofList name, { input with lexemes := rest }) else none
  | _ => none

-- ---------------------------------------------------------------------------
-- Commands

mutual

def list : Nat → Input → Parse
  | 0, input => .error (input.unexpected none)
  | fuel + 1, input =>
    let input := input.skipLines
    if input.token == .finish || isCloser input.token then .ok (.nothing, input)
    else do
      let (first, input) ← andOr fuel input
      let (first, behind) := match input.skipOperator? "&" with
        | some input => (.background first, some input)
        | none => (first, if input.token == .newline then some input else input.skipOperator? ";")
      match behind with
      | none => pure (first, input)
      | some input => match ← list fuel input with
        | (.nothing, input) => pure (first, input)
        | (second, input) => pure (.sequence first second, input)

def andOr : Nat → Input → Parse
  | 0, input => .error (input.unexpected none)
  | fuel + 1, input => do
    let (first, input) ← negated fuel input
    andOrFrom fuel first input

def andOrFrom : Nat → Script → Input → Parse
  | 0, _, input => .error (input.unexpected none)
  | fuel + 1, left, input =>
    match input.skipOperator? "&&" with
    | some input => do
      let (right, input) ← negated fuel input.skipLines
      andOrFrom fuel (.both left right) input
    | none => match input.skipOperator? "||" with
      | some input => do
        let (right, input) ← negated fuel input.skipLines
        andOrFrom fuel (.either left right) input
      | none => .ok (left, input)

def negated : Nat → Input → Parse
  | 0, input => .error (input.unexpected none)
  | fuel + 1, input =>
    match input.skipKeyword? "!" with
    | some input => do
      let (script, input) ← pipeline fuel input
      pure (.opposite script, input)
    | none => pipeline fuel input

def pipeline : Nat → Input → Parse
  | 0, input => .error (input.unexpected none)
  | fuel + 1, input => do
    let (first, input) ← command fuel input
    match input.skipOperator? "|" with
    | some input =>
      let (right, input) ← pipeline fuel input.skipLines
      pure (.pipe first right, input)
    | none => pure (first, input)

def command : Nat → Input → Parse
  | 0, input => .error (input.unexpected none)
  | fuel + 1, input =>
    let compound (parse : Parse) : Parse := do
      let (script, input) ← parse
      match redirects (input.lexemes.length + 1) input with
      | ([], input) => pure (script, input)
      | (redirects, input) => pure (.redirected script redirects, input)
    if input.token == .operator "(" then
      compound (do
        let (script, input) ← list fuel input.tail
        pure (.isolated script, ← input.operator ")"))
    else match keyword? input.token with
      | some "\x7b" => compound (do
        let (script, input) ← list fuel input.tail
        pure (script, ← input.keyword "\x7d"))
      | some "if" => compound (branches fuel input.tail)
      | some "while" => compound (repetition fuel false input.tail)
      | some "until" => compound (repetition fuel true input.tail)
      | some "for" => compound (iteration fuel input.tail)
      | some "case" => compound (selection fuel input.tail)
      | _ =>
        if isCloser input.token then .error (input.unexpected none)
        else match definition? input with
          | some (name, input) => do
            let (body, input) ← command fuel input.skipLines
            pure (.define name body, input)
          | none => simpleFrom (input.lexemes.length + 1) 1 [] [] [] input

/-- What follows `if` or `elif`, through `fi`. -/
def branches : Nat → Input → Parse
  | 0, input => .error (input.unexpected none)
  | fuel + 1, input => do
    let (condition, input) ← list fuel input
    let (yes, input) ← list fuel (← input.keyword "then")
    match input.skipKeyword? "elif" with
    | some input =>
      let (no, input) ← branches fuel input
      pure (.choose condition yes no, input)
    | none => match input.skipKeyword? "else" with
      | some input =>
        let (no, input) ← list fuel input
        pure (.choose condition yes no, ← input.keyword "fi")
      | none => pure (.choose condition yes .nothing, ← input.keyword "fi")

def repetition : Nat → Bool → Input → Parse
  | 0, _, input => .error (input.unexpected none)
  | fuel + 1, untilTrue, input => do
    let (condition, input) ← list fuel input
    let (body, input) ← list fuel (← input.keyword "do")
    pure (.loop untilTrue condition body, ← input.keyword "done")

def iteration : Nat → Input → Parse
  | 0, input => .error (input.unexpected none)
  | fuel + 1, input =>
    match keyword? input.token with
    | none => .error ⟨input.lexeme.line, "Bad for loop variable"⟩
    | some name => do
      let input := input.tail.skipLines
      let (words, input) := match input.skipKeyword? "in" with
        | some input => listedWords (input.lexemes.length + 1) input
        | none => ([[.parameter ⟨"@", .value, []⟩ true]], input)
      let input := ((input.skipOperator? ";").getD input).skipLines
      let (body, input) ← list fuel (← input.keyword "do")
      pure (.each name words body, ← input.keyword "done")

def selection : Nat → Input → Parse
  | 0, input => .error (input.unexpected none)
  | fuel + 1, input =>
    match input.token with
    | .word word => do
      let input ← input.tail.skipLines.keyword "in"
      let (arms, input) ← arms fuel input
      pure (.select word arms, input)
    | _ => .error (input.unexpected (some "word"))

def arms : Nat → Input → Except SyntaxFault (List (List Word × Script) × Input)
  | 0, input => .error (input.unexpected none)
  | fuel + 1, input =>
    let input := input.skipLines
    match input.skipKeyword? "esac" with
    | some input => .ok ([], input)
    | none => do
      let input := (input.skipOperator? "(").getD input
      let (patterns, input) ← patterns (input.lexemes.length + 1) input
      let (body, input) ← list fuel input
      match input.skipOperator? ";;" with
      | some input =>
        let (arms, input) ← arms fuel input
        pure ((patterns, body) :: arms, input)
      | none => pure ([(patterns, body)], ← input.keyword "esac")

end

def commands : Nat → Nat → Input → Parse
  | 0, _, input => .error (input.unexpected none)
  | more + 1, fuel, input => do
    let (first, input) ← andOr fuel input
    let (first, input, isSeparated) := match input.skipOperator? "&" with
      | some input => (Script.background first, input, true)
      | none => match input.skipOperator? ";" with
        | some input => (first, input, true)
        | none => (first, input, false)
    if input.token == .newline || input.token == .finish then pure (first, input.tail)
    else if isSeparated then
      let (second, input) ← commands more fuel input
      pure (.sequence first second, input)
    else throw (input.unexpected none)

def nextLine (input : Input) : Except SyntaxFault (Option (Script × Input)) :=
  let input := input.skipLines
  if input.token == .finish then .ok none
  else do
    let size := input.lexemes.length
    pure (some (← commands (size + 1) (20 * size + 20) input))

def inputOf (text : List Char) : Input :=
  let (lexemes, bodies) := lexemes text
  ⟨lexemes, bodies⟩

end Script

end SnippetTrail.Shell
