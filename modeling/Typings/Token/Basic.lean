import Typings.Position

/-!
# Tokens and comments

A lexeme is a word of the language: an identifier, a keyword, a literal kept as it was written, or
an operator. A token is a lexeme with its place in the source. Some semicolons are not written but
stand at a line end, and the text always ends in a token of its own.
-/

namespace Typings

/-- The kinds of literals, as a lexeme shows them. -/
inductive LiteralKind where
  | int
  | float
  | imaginary
  | rune
  | string
  deriving DecidableEq, Repr

/-- The reserved words. -/
inductive Keyword where
  | breakKw | caseKw | chanKw | constKw | continueKw | defaultKw | deferKw | elseKw
  | fallthroughKw | forKw | funcKw | goKw | gotoKw | ifKw | importKw | interfaceKw | mapKw
  | packageKw | rangeKw | returnKw | selectKw | structKw | switchKw | typeKw | varKw
  deriving DecidableEq, Repr

/-- The operators and the marks of punctuation. -/
inductive Operator where
  | shiftLeftAssign | shiftRightAssign | clearAssign | ellipsis
  | andAnd | orOr | arrow | increment | decrement | equal | notEqual | lessEqual | greaterEqual
  | define | shiftLeft | shiftRight | clear | plusAssign | minusAssign | starAssign | slashAssign
  | percentAssign | ampersandAssign | barAssign | caretAssign
  | plus | minus | star | slash | percent | ampersand | bar | caret | tilde | bang | less | greater
  | assign | leftParen | rightParen | leftBracket | rightBracket | leftBrace | rightBrace
  | comma | semicolon | dot | colon
  deriving DecidableEq, Repr

/-- The name by which answers and messages call a kind of literal. -/
def LiteralKind.label : LiteralKind → String
  | .int => "INT"
  | .float => "FLOAT"
  | .imaginary => "IMAG"
  | .rune => "CHAR"
  | .string => "STRING"

namespace Keyword

/-- The word itself. -/
def text : Keyword → String
  | .breakKw => "break" | .caseKw => "case" | .chanKw => "chan" | .constKw => "const"
  | .continueKw => "continue" | .defaultKw => "default" | .deferKw => "defer" | .elseKw => "else"
  | .fallthroughKw => "fallthrough" | .forKw => "for" | .funcKw => "func" | .goKw => "go"
  | .gotoKw => "goto" | .ifKw => "if" | .importKw => "import" | .interfaceKw => "interface"
  | .mapKw => "map" | .packageKw => "package" | .rangeKw => "range" | .returnKw => "return"
  | .selectKw => "select" | .structKw => "struct" | .switchKw => "switch" | .typeKw => "type"
  | .varKw => "var"

/-- All reserved words, in alphabetical order. -/
def all : List Keyword :=
  [.breakKw, .caseKw, .chanKw, .constKw, .continueKw, .defaultKw, .deferKw, .elseKw,
    .fallthroughKw, .forKw, .funcKw, .goKw, .gotoKw, .ifKw, .importKw, .interfaceKw, .mapKw,
    .packageKw, .rangeKw, .returnKw, .selectKw, .structKw, .switchKw, .typeKw, .varKw]

/-- The keyword that a word is, if it is reserved. -/
def ofText? (word : String) : Option Keyword := all.find? fun k => k.text == word

end Keyword

namespace Operator

/-- The characters of an operator. -/
def text : Operator → String
  | .shiftLeftAssign => "<<=" | .shiftRightAssign => ">>=" | .clearAssign => "&^="
  | .ellipsis => "..."
  | .andAnd => "&&" | .orOr => "||" | .arrow => "<-" | .increment => "++" | .decrement => "--"
  | .equal => "==" | .notEqual => "!=" | .lessEqual => "<=" | .greaterEqual => ">="
  | .define => ":=" | .shiftLeft => "<<" | .shiftRight => ">>" | .clear => "&^"
  | .plusAssign => "+=" | .minusAssign => "-=" | .starAssign => "*=" | .slashAssign => "/="
  | .percentAssign => "%=" | .ampersandAssign => "&=" | .barAssign => "|=" | .caretAssign => "^="
  | .plus => "+" | .minus => "-" | .star => "*" | .slash => "/" | .percent => "%"
  | .ampersand => "&" | .bar => "|" | .caret => "^" | .tilde => "~" | .bang => "!"
  | .less => "<" | .greater => ">" | .assign => "=" | .leftParen => "(" | .rightParen => ")"
  | .leftBracket => "[" | .rightBracket => "]" | .leftBrace => "\x7b" | .rightBrace => "\x7d"
  | .comma => "," | .semicolon => ";" | .dot => "." | .colon => ":"

/-- All operators, the longer before the shorter. -/
def all : List Operator :=
  [.shiftLeftAssign, .shiftRightAssign, .clearAssign, .ellipsis,
    .andAnd, .orOr, .arrow, .increment, .decrement, .equal, .notEqual, .lessEqual, .greaterEqual,
    .define, .shiftLeft, .shiftRight, .clear, .plusAssign, .minusAssign, .starAssign, .slashAssign,
    .percentAssign, .ampersandAssign, .barAssign, .caretAssign,
    .plus, .minus, .star, .slash, .percent, .ampersand, .bar, .caret, .tilde, .bang, .less,
    .greater, .assign, .leftParen, .rightParen, .leftBracket, .rightBracket, .leftBrace,
    .rightBrace, .comma, .semicolon, .dot, .colon]

/-- The operator that a text is. -/
def ofText? (word : String) : Option Operator := all.find? fun o => o.text == word

/-- The longest operator at the start of a text. -/
def atStart? (cs : List Char) : Option Operator := all.find? fun o => o.text.toList.isPrefixOf cs

end Operator

/-- A word of the language, or the end of the text. -/
inductive Lexeme where
  | ident (name : String)
  | keyword (word : Keyword)
  | literal (kind : LiteralKind) (text : String)
  | op (operator : Operator)
  | eof
  deriving DecidableEq, Repr

namespace Lexeme

/-- The characters of a lexeme; the end of the text has none. -/
def text : Lexeme → String
  | .ident name => name
  | .keyword word => word.text
  | .literal _ text => text
  | .op operator => operator.text
  | .eof => ""

/-- The name of a lexeme's class: a keyword is a class of its own. -/
def label : Lexeme → String
  | .ident _ => "IDENT"
  | .keyword word => word.text
  | .literal kind _ => kind.label
  | .op _ => "OP"
  | .eof => "EOF"

/-- The lexeme that is not a literal and has the given characters. -/
def ofText (word : String) : Lexeme :=
  if word = "" then .eof
  else match Operator.ofText? word with
    | some operator => .op operator
    | none =>
      match Keyword.ofText? word with
      | some word => .keyword word
      | none => .ident word

/-- A lexeme after which a line end finishes the statement. -/
def endsStatement : Lexeme → Bool
  | .ident _ | .literal _ _ => true
  | .keyword .breakKw | .keyword .continueKw | .keyword .fallthroughKw | .keyword .returnKw => true
  | .op .rightParen | .op .rightBracket | .op .rightBrace => true
  | .op .increment | .op .decrement => true
  | _ => false

/-- An identifier. -/
def isIdent : Lexeme → Bool
  | .ident _ => true
  | _ => false

/-- A string literal of either form. -/
def isString : Lexeme → Bool
  | .literal .string _ => true
  | _ => false

end Lexeme

/-- A lexeme at its place. `auto` marks a semicolon that stands for a line end. -/
structure Token where
  lexeme : Lexeme
  pos : Position
  auto : Bool := false
  deriving DecidableEq, Repr

/-- A comment with its markers, at its place. `ownLine` says that no token stands before it on the
line where it starts. -/
structure Comment where
  text : String
  pos : Position
  endLine : Nat
  ownLine : Bool
  deriving DecidableEq, Repr

/-- How a message names a token that it did not expect. -/
def Token.describe (t : Token) : String :=
  if t.lexeme = .eof then "end of input"
  else if t.auto then "newline"
  else "'" ++ t.lexeme.text ++ "'"

end Typings
