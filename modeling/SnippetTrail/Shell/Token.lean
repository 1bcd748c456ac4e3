import SnippetTrail.Text.Search
import SnippetTrail.Text.Word

/-!
# Words and tokens of scripts

A word is made of parts, because quoting decides part by part what happens to a text later. Bodies of
here-documents stand behind the line that asks for them and are collected in order. A text that cannot
be read ends the tokens with its fault.
-/

namespace SnippetTrail.Shell

inductive Use where
  | value
  | length
  | otherwise (orEmpty : Bool)
  /-- The operand, which then is the value as well, where there is none. -/
  | assign (orEmpty : Bool)
  | demand (orEmpty : Bool)
  | instead (orEmpty : Bool)
  | withoutStart (longest : Bool)
  | withoutEnd (longest : Bool)
  | bad
  deriving DecidableEq

structure Parameter where
  name : String
  use : Use
  /-- A text that is read when it is needed. -/
  operand : List Char
  deriving DecidableEq

inductive Part where
  | plain (text : List Char)
  | quoted (text : List Char)
  | parameter (parameter : Parameter) (inQuotes : Bool)
  | output (script : List Char) (inQuotes : Bool)
  | number (expression : List Char) (inQuotes : Bool)
  deriving DecidableEq

abbrev Word := List Part

inductive Token where
  | word (word : Word)
  | operator (text : String)
  | redirect (descriptor : Nat) (text : String)
  | document (descriptor : Nat)
  | newline
  | finish
  | fault (text : String)
  deriving DecidableEq

structure Lexeme where
  line : Nat
  token : Token
  deriving DecidableEq

abbrev Reading (α : Type) := Except String (α × List Char)

def Reading.map (f : α → β) (reading : Reading α) : Reading β :=
  Except.map (fun found => (f found.1, found.2)) reading

def Reading.andThen (reading : Reading α) (next : α → List Char → Reading β) : Reading β :=
  Except.bind reading fun found => next found.1 found.2

-- ---------------------------------------------------------------------------
-- Expansions

def isNameStart (c : Char) : Bool := Text.isAsciiUpper c || Text.isAsciiLower c || c == '_'

def isNameChar (c : Char) : Bool := isNameStart c || Text.isAsciiDigit c

def isSpecialParameter (c : Char) : Bool :=
  c == '#' || c == '?' || c == '$' || c == '@' || c == '*' || c == '!' || c == '-'

/-- The text up to a closing character, which is used up. Quotes hide what is in them, and what is
opened on the way is closed first. -/
def enclosed (opener closer : Char) : Nat → Option Char → List Char → Option (List Char × List Char)
  | _, _, [] => none
  | depth, quote, '\\' :: c :: rest =>
    if quote == some '\'' then
      (enclosed opener closer depth (if c == '\'' then none else quote) rest).map fun (text, rest) =>
        ('\\' :: c :: text, rest)
    else (enclosed opener closer depth quote rest).map fun (text, rest) => ('\\' :: c :: text, rest)
  | depth, some quote, c :: rest =>
    (enclosed opener closer depth (if c == quote then none else some quote) rest).map
      fun (text, rest) => (c :: text, rest)
  | depth, none, c :: rest =>
    let go (depth : Nat) (quote : Option Char) :=
      (enclosed opener closer depth quote rest).map fun (text, rest) => (c :: text, rest)
    if c == '\'' || c == '"' then go depth (some c)
    else if c == closer then match depth with
      | 0 => some ([], rest)
      | depth + 1 => go depth none
    else go (if c == opener then depth + 1 else depth) none

def parameterName (text : List Char) : List Char :=
  match text with
  | c :: _ =>
    if isNameStart c then text.takeWhile isNameChar
    else if Text.isAsciiDigit c then text.takeWhile Text.isAsciiDigit
    else if isSpecialParameter c then [c]
    else []
  | [] => []

def useOf : List Char → Use × List Char
  | [] => (.value, [])
  | ':' :: '-' :: operand => (.otherwise true, operand)
  | '-' :: operand => (.otherwise false, operand)
  | ':' :: '=' :: operand => (.assign true, operand)
  | '=' :: operand => (.assign false, operand)
  | ':' :: '?' :: operand => (.demand true, operand)
  | '?' :: operand => (.demand false, operand)
  | ':' :: '+' :: operand => (.instead true, operand)
  | '+' :: operand => (.instead false, operand)
  | '#' :: '#' :: operand => (.withoutStart true, operand)
  | '#' :: operand => (.withoutStart false, operand)
  | '%' :: '%' :: operand => (.withoutEnd true, operand)
  | '%' :: operand => (.withoutEnd false, operand)
  | _ => (.bad, [])

def parameterOf (inner : List Char) : Parameter :=
  match inner with
  | '#' :: c :: rest =>
    let name := parameterName (c :: rest)
    if !name.isEmpty && name.length == rest.length + 1 then ⟨String.ofList name, .length, []⟩
    else let (use, operand) := useOf (c :: rest); ⟨"#", use, operand⟩
  | _ =>
    let name := parameterName inner
    let (use, operand) := if name.isEmpty then (.bad, []) else useOf (inner.drop name.length)
    ⟨String.ofList name, use, operand⟩

def readExpansion (inQuotes : Bool) (text : List Char) : Reading Part :=
  match text with
  | '(' :: rest =>
    match enclosed '(' ')' 0 none rest with
    | none => .error "end of file unexpected (expecting \")\")"
    | some (script, behind) =>
      match rest with
      | '(' :: inner => match enclosed '(' ')' 0 none inner with
        | some (expression, ')' :: rest) => .ok (.number expression inQuotes, rest)
        | _ => .ok (.output script inQuotes, behind)
      | _ => .ok (.output script inQuotes, behind)
  | '\x7b' :: rest =>
    match enclosed '\x7b' '\x7d' 0 none rest with
    | some (inner, rest) => .ok (.parameter (parameterOf inner) inQuotes, rest)
    | none => .error "Missing '\x7d'"
  | c :: rest =>
    if isSpecialParameter c || Text.isAsciiDigit c then
      .ok (.parameter ⟨String.ofList [c], .value, []⟩ inQuotes, rest)
    else
      let name := parameterName text
      if name.isEmpty then .ok (.quoted ['$'], text)
      else .ok (.parameter ⟨String.ofList name, .value, []⟩ inQuotes, text.drop name.length)
  | [] => .ok (.quoted ['$'], [])

def readBackticks : List Char → Reading (List Char)
  | [] => .error "EOF in backquote substitution"
  | '\x60' :: rest => .ok ([], rest)
  | '\\' :: c :: rest =>
    (readBackticks rest).map fun text =>
      if c == '$' || c == '\x60' || c == '\\' then c :: text else '\\' :: c :: text
  | c :: rest => (readBackticks rest).map (c :: ·)

-- ---------------------------------------------------------------------------
-- Words

/-- Parts as double quotes have them: up to the closing character, which is used up, or else to the
end of the text. -/
def readQuoted (closing : Option Char) : Nat → List Char → Reading Word
  | 0, text => .ok ([], text)
  | fuel + 1, text =>
    match text with
    | [] => if closing.isSome then .error "Unterminated quoted string" else .ok ([], [])
    | '\\' :: '\n' :: rest => readQuoted closing fuel rest
    | '\\' :: c :: rest =>
      let isShown := c == '$' || c == '\\' || c == '\x60' || some c == closing
      (readQuoted closing fuel rest).map (.quoted (if isShown then [c] else ['\\', c]) :: ·)
    | '$' :: rest => (readExpansion true rest).andThen fun part rest =>
      (readQuoted closing fuel rest).map (part :: ·)
    | '\x60' :: rest => (readBackticks rest).andThen fun script rest =>
      (readQuoted closing fuel rest).map (.output script true :: ·)
    | c :: rest =>
      if some c == closing then .ok ([.quoted []], rest)
      else
        let isRun := fun c => c != '\\' && c != '$' && c != '\x60' && some c != closing
        let run := c :: rest.takeWhile isRun
        (readQuoted closing fuel (text.drop run.length)).map (.quoted run :: ·)

def readWord (ends : Char → Bool) : Nat → List Char → Reading Word
  | 0, text => .ok ([], text)
  | fuel + 1, text =>
    match text with
    | [] => .ok ([], [])
    | '\\' :: '\n' :: rest => readWord ends fuel rest
    | '\\' :: c :: rest => (readWord ends fuel rest).map (.quoted [c] :: ·)
    | '\'' :: rest =>
      match Text.splitOnce? '\'' rest with
      | some (inner, rest) => (readWord ends fuel rest).map (.quoted inner :: ·)
      | none => .error "Unterminated quoted string"
    | '"' :: rest => (readQuoted (some '"') fuel rest).andThen fun inner rest =>
      (readWord ends fuel rest).map (inner ++ ·)
    | '$' :: rest => (readExpansion false rest).andThen fun part rest =>
      (readWord ends fuel rest).map (part :: ·)
    | '\x60' :: rest => (readBackticks rest).andThen fun script rest =>
      (readWord ends fuel rest).map (.output script false :: ·)
    | c :: rest =>
      if ends c then .ok ([], text)
      else
        let isRun := fun c => !ends c && c != '\\' && c != '\'' && c != '"' && c != '$' && c != '\x60'
        let run := c :: rest.takeWhile isRun
        (readWord ends fuel (text.drop run.length)).map (.plain run :: ·)

def isMeta (c : Char) : Bool :=
  c == ' ' || c == '\t' || c == '\n' || c == ';' || c == '&' || c == '|' || c == '<' || c == '>' ||
    c == '(' || c == ')'

def withHome : Word → Word
  | .plain ['~'] :: parts =>
    if parts.isEmpty then [.parameter ⟨"HOME", .value, []⟩ true] else .plain ['~'] :: parts
  | .plain ('~' :: '/' :: text) :: parts =>
    .parameter ⟨"HOME", .value, []⟩ true :: .plain ('/' :: text) :: parts
  | word => word

def operandParts (inQuotes : Bool) (operand : List Char) : Word :=
  let fuel := operand.length + 1
  let reading := if inQuotes then readQuoted none fuel operand
    else readWord (fun _ => false) fuel operand
  match reading with
  | .ok (word, _) => word
  | .error _ => [.quoted operand]

-- ---------------------------------------------------------------------------
-- Here-documents

def delimiter (word : Word) : List Char × Bool :=
  (word.flatMap fun part => match part with
    | .plain text | .quoted text => text
    | _ => [],
   word.any fun part => match part with
    | .quoted _ => true
    | _ => false)

structure Pending where
  ending : List Char
  isLiteral : Bool
  stripsTabs : Bool

/-- The lines of a here-document, and the text behind its delimiter. -/
def documentBody (stripsTabs : Bool) (ending : List Char) : Nat → List Char → List Char × List Char
  | 0, text => ([], text)
  | fuel + 1, text =>
    let whole := text.takeWhile (· != '\n')
    let rest := text.drop (whole.length + 1)
    let line := if stripsTabs then whole.dropWhile (· == '\t') else whole
    if line == ending || text.isEmpty then ([], rest)
    else
      let (body, rest) := documentBody stripsTabs ending fuel rest
      (line ++ ['\n'] ++ body, rest)

def readBodies : List Pending → List Char → List Word × List Char
  | [], text => ([], text)
  | ⟨ending, isLiteral, stripsTabs⟩ :: pending, text =>
    let (body, rest) := documentBody stripsTabs ending (text.length + 1) text
    let (bodies, rest) := readBodies pending rest
    ((if isLiteral then [.quoted body] else operandParts true body) :: bodies, rest)

-- ---------------------------------------------------------------------------
-- Tokens

def operators : List String := ["&&", "||", ";;", ";", "&", "|", "(", ")"]

def redirections : List String := [">>", ">&", "<&", ">|", ">", "<"]

def startingOne? (candidates : List String) (text : List Char) : Option (String × List Char) :=
  candidates.findSome? fun candidate =>
    (Text.stripStart? candidate.toList text).map (candidate, ·)

def newlines (text : List Char) : Nat := (text.filter (· == '\n')).length

def lexemesFrom : Nat → Nat → List Pending → List Char → List Lexeme × List Word
  | 0, line, _, _ => ([⟨line, .finish⟩], [])
  | fuel + 1, line, pending, text =>
    let passed (rest : List Char) : Nat := line + (newlines text - newlines rest)
    let first (token : Token) (found : List Lexeme × List Word) : List Lexeme × List Word :=
      (⟨line, token⟩ :: found.1, found.2)
    let faulty (reason : String) : List Lexeme × List Word :=
      ([⟨line + newlines text, .fault reason⟩], [])
    match text with
    | [] => ([⟨line, .finish⟩], (readBodies pending []).1)
    | '\n' :: rest =>
      let (bodies, behind) := readBodies pending rest
      let (lexemes, more) := lexemesFrom fuel (passed behind) [] behind
      (⟨line + 1, .newline⟩ :: lexemes, bodies ++ more)
    | '\\' :: '\n' :: rest => lexemesFrom fuel (line + 1) pending rest
    | c :: rest =>
      if c == ' ' || c == '\t' then lexemesFrom fuel line pending rest
      else if c == '#' then lexemesFrom fuel line pending (rest.dropWhile (· != '\n'))
      else
        let digits := text.takeWhile Text.isAsciiDigit
        let behind := text.drop digits.length
        let isDirected := behind.head? == some '<' || behind.head? == some '>'
        if isDirected then
          let number := digits.foldl (fun n c => 10 * n + (c.toNat - '0'.toNat)) 0
          match Text.stripStart? "<<".toList behind with
          | some rest =>
            let stripsTabs := rest.head? == some '-'
            let rest := (if stripsTabs then rest.tail else rest).dropWhile (· == ' ')
            match readWord isMeta (rest.length + 1) rest with
            | .error reason => faulty reason
            | .ok (word, rest) =>
              let (ending, isLiteral) := delimiter word
              first (.document (if digits.isEmpty then 0 else number))
                (lexemesFrom fuel (passed rest) (pending ++ [⟨ending, isLiteral, stripsTabs⟩]) rest)
          | none =>
            let (text, rest) := (startingOne? redirections behind).getD ("", behind)
            let standard := if text.toList.head? == some '<' then 0 else 1
            first (.redirect (if digits.isEmpty then standard else number) text)
              (lexemesFrom fuel line pending rest)
        else match startingOne? operators text with
          | some (operator, rest) => first (.operator operator) (lexemesFrom fuel line pending rest)
          | none => match readWord isMeta (text.length + 1) text with
            | .error reason => faulty reason
            | .ok (word, rest) =>
              first (.word (withHome word)) (lexemesFrom fuel (passed rest) pending rest)

def lexemes (text : List Char) : List Lexeme × List Word := lexemesFrom (text.length + 1) 1 [] text

end SnippetTrail.Shell
