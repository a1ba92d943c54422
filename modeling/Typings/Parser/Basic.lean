import Typings.Parser.Cursor

/-!
# Parsers

A parser moves a cursor and gives a value, or fails at the token where it stands. Loops take a bound
on their rounds from the number of tokens ahead; as each round passes a token, none is cut short.
-/

namespace Typings

/-- What a parser would have accepted. -/
inductive Expectation where
  | word (lexeme : Lexeme)
  | identifier
  | statementEnd
  | importPath
  | declaration
  | type
  | length
  deriving DecidableEq, Repr

/-- Why a parser fails. -/
inductive ParseCause where
  | expected (what : Expectation)
  | openImports
  | openBody
  | severalReceivers
  | unnamedTypeParam
  | mixedNames
  | missingType
  | trailingInput
  | exhausted
  deriving DecidableEq, Repr

/-- A failure and the token at which it arose. -/
structure ParseError where
  cause : ParseCause
  found : Token
  deriving DecidableEq, Repr

/-- An expectation in words. -/
def Expectation.message : Expectation → String
  | .word lexeme => "'" ++ lexeme.text ++ "'"
  | .identifier => "identifier"
  | .statementEnd => "';' or newline"
  | .importPath => "import path"
  | .declaration => "declaration (type, func)"
  | .type => "type"
  | .length => "array length"

/-- A cause in words, given the token at which it arose. -/
def ParseCause.message (found : Token) : ParseCause → String
  | .expected what => "expected " ++ what.message ++ ", got " ++ found.describe
  | .openImports => "unterminated import group"
  | .openBody => "unterminated function body"
  | .severalReceivers => "method has multiple receivers"
  | .unnamedTypeParam => "type parameter must be named"
  | .mixedNames => "mixed named and unnamed parameters"
  | .missingType => "missing parameter type"
  | .trailingInput => "unexpected trailing input"
  | .exhausted => "source nested too deeply"

/-- The error in words, with its place. -/
def ParseError.message (e : ParseError) : String := e.cause.message e.found ++ e.found.pos.suffix

/-- A parser: from a cursor to a value and a cursor further on, or to an error. -/
abbrev Parser := StateT Cursor (Except ParseError)

namespace Parser

/-- Failing at the current token. -/
def fail {α : Type} (cause : ParseCause) : Parser α := fun c => .error ⟨cause, c.current⟩

/-- What the cursor shows, without moving it. -/
def ask {α : Type} (f : Cursor → α) : Parser α := fun c => .ok (f c, c)

/-- The current token. -/
def current : Parser Token := ask Cursor.current

/-- Passing the current token. -/
def advance : Parser Token := fun c => .ok (c.current, c.advance)

/-- Whether the current token is the given lexeme. -/
def isAt (lexeme : Lexeme) : Parser Bool := ask fun c => c.current.lexeme = lexeme

/-- Whether the current token is an identifier. -/
def isAtIdent : Parser Bool := ask fun c => c.current.lexeme.isIdent

/-- The comments directly above the current line. -/
def docHere : Parser (Option CommentGroup) := ask fun c => c.docAbove c.current.pos.line

/-- The comment behind the token just passed, which is then gone. -/
def commentBehind : Parser (Option CommentGroup) :=
  fun c => .ok (c.commentBehind, c.dropCommentBehind)

/-- Passing the given lexeme. -/
def expect (lexeme : Lexeme) : Parser Token := do
  if ← isAt lexeme then advance else fail (.expected (.word lexeme))

/-- Passing an identifier, which is given. -/
def identToken : Parser Token := do
  if ← isAtIdent then advance else fail (.expected .identifier)

/-- Passing an identifier, whose name is given. -/
def ident : Parser String := do
  let t ← identToken
  pure t.lexeme.text

/-- The end of a statement: a semicolon, which is passed, or the closing of what holds it. -/
def endStatement : Parser Unit := do
  let t ← current
  match t.lexeme with
  | .op .semicolon => discard advance
  | .op .rightParen | .op .rightBrace | .eof => pure ()
  | _ => fail (.expected .statementEnd)

/-- Passing all semicolons at the cursor. -/
def passSemis : Parser Unit := fun c => .ok ((), c.passSemis)

/-- A parser that is given a bound: one more than the number of tokens ahead. -/
def bounded {α : Type} (p : Nat → Parser α) : Parser α := fun c => p (c.rest.length + 1) c

/-- Items up to a closing lexeme, which is not passed; semicolons between them are. -/
def itemsUntil {α : Type} (close : Lexeme) (item : Parser α) : Nat → Parser (List α)
  | 0 => fail .exhausted
  | rounds + 1 => do
    if ← isAt close then pure []
    else if ← isAt (.op .semicolon) then
      let _ ← advance
      itemsUntil close item rounds
    else
      let x ← item
      let xs ← itemsUntil close item rounds
      pure (x :: xs)

/-- Further operands with the operators before them, as long as the current token is an operator. -/
def operandsAfter {α : Type} (isOperator : Lexeme → Bool) (operand : Parser α) :
    Nat → Parser (List (String × α))
  | 0 => fail .exhausted
  | rounds + 1 => do
    let t ← current
    if isOperator t.lexeme then
      let _ ← advance
      let x ← operand
      let xs ← operandsAfter isOperator operand rounds
      pure ((t.lexeme.text, x) :: xs)
    else pure []

/-- Items with commas between them up to a closing lexeme, which is not passed; a comma may stand
before it. -/
def commaItems {α : Type} (close : Lexeme) (item : Parser α) : Nat → Parser (List α)
  | 0 => fail .exhausted
  | rounds + 1 => do
    if ← isAt close then pure []
    else
      let x ← item
      if ← isAt (.op .comma) then
        let _ ← advance
        let xs ← commaItems close item rounds
        pure (x :: xs)
      else pure [x]

end Parser

end Typings
