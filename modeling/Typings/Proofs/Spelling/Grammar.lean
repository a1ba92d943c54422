import Typings.TypeExpr.Parser

/-!
# The grammar of type expressions

`Spells p ws` says that the lexemes `ws` spell the phrase `p`. The relation knows nothing of the
parser: it has one rule for each form of a type expression, and it leaves open only what the
language leaves open, whether a result that is alone and has no name stands in parentheses. Each
member of a body ends in a semicolon, and no comma stands before a closing bracket. Comments are not
spelled.

All phrases are in one relation, so that an induction over a spelling has one case for each rule.
-/

namespace Typings

/-- What an expression is spelled as. -/
inductive ExprKind where
  /-- A plain name, or a name of a package. -/
  | base
  /-- A type. -/
  | type
  /-- The type of an entry of a list: a type, or dots and a type. -/
  | entry
  /-- An operand of an array length. -/
  | operand
  /-- An array length: operands with operators between them. -/
  | length
  /-- A term of a constraint: a type, or `~` and a type. -/
  | term
  /-- A constraint: terms with bars between them. -/
  | constraint
  deriving DecidableEq, Repr

/-- What a stretch of lexemes may spell. -/
inductive Phrase where
  | expr (kind : ExprKind) (x : TypeExpr)
  /-- Expressions with commas between them, at least one. -/
  | exprs (kind : ExprKind) (xs : List TypeExpr)
  /-- Entries with commas between them, at least one: all of them named, or none. -/
  | entries (named : Bool) (fields : List Field)
  /-- A list in parentheses. -/
  | params (fields : List Field)
  | results (fields : List Field)
  /-- The fields inside a struct. -/
  | fields (fields : List Field)
  /-- The members inside an interface. -/
  | methods (methods : List Field)

/-- Names with commas between them. -/
def spellNames (names : List String) : List Lexeme :=
  (names.map Lexeme.ident).intersperse (.op .comma)

/-- The tag of a field, if it has one. -/
def spellTag : Option String → List Lexeme
  | none => []
  | some text => [.literal .string text]

open Typings.Parser (isLengthOperator isSign)

/-- The lexemes spell the phrase. -/
inductive Spells : Phrase → List Lexeme → Prop
  -- Names
  | name {n : String} : Spells (.expr .base (.name n)) [.ident n]
  | selector {n sel : String} :
    Spells (.expr .base (.selector (.name n) sel)) [.ident n, .op .dot, .ident sel]
  -- Several expressions
  | one {kind : ExprKind} {x : TypeExpr} {ws : List Lexeme} :
    Spells (.expr kind x) ws → Spells (.exprs kind [x]) ws
  | more {kind : ExprKind} {x : TypeExpr} {xs : List TypeExpr} {ws vs : List Lexeme} :
    Spells (.expr kind x) ws → Spells (.exprs kind xs) vs →
    Spells (.exprs kind (x :: xs)) (ws ++ .op .comma :: vs)
  -- Types
  | typeName {x : TypeExpr} {ws : List Lexeme} : Spells (.expr .base x) ws → Spells (.expr .type x) ws
  | generic {x : TypeExpr} {args : List TypeExpr} {ws vs : List Lexeme} :
    Spells (.expr .base x) ws → Spells (.exprs .type args) vs →
    Spells (.expr .type (.generic x args)) (ws ++ .op .leftBracket :: vs ++ [.op .rightBracket])
  | pointer {x : TypeExpr} {ws : List Lexeme} :
    Spells (.expr .type x) ws → Spells (.expr .type (.pointer x)) (.op .star :: ws)
  | slice {x : TypeExpr} {ws : List Lexeme} :
    Spells (.expr .type x) ws →
    Spells (.expr .type (.array x none)) (.op .leftBracket :: .op .rightBracket :: ws)
  | counted {x : TypeExpr} {ws : List Lexeme} :
    Spells (.expr .type x) ws →
    Spells (.expr .type (.array x (some (.counted "..."))))
      (.op .leftBracket :: .op .ellipsis :: .op .rightBracket :: ws)
  | array {x size : TypeExpr} {ws vs : List Lexeme} :
    Spells (.expr .length size) vs → Spells (.expr .type x) ws →
    Spells (.expr .type (.array x (some size)))
      (.op .leftBracket :: vs ++ .op .rightBracket :: ws)
  | map {key value : TypeExpr} {ws vs : List Lexeme} :
    Spells (.expr .type key) ws → Spells (.expr .type value) vs →
    Spells (.expr .type (.map key value))
      (.keyword .mapKw :: .op .leftBracket :: ws ++ .op .rightBracket :: vs)
  | channel {value : TypeExpr} {ws : List Lexeme} :
    (∀ x, value ≠ .channel .receive x) → Spells (.expr .type value) ws →
    Spells (.expr .type (.channel .both value)) (.keyword .chanKw :: ws)
  | channelSend {value : TypeExpr} {ws : List Lexeme} :
    Spells (.expr .type value) ws →
    Spells (.expr .type (.channel .send value)) (.keyword .chanKw :: .op .arrow :: ws)
  | channelReceive {value : TypeExpr} {ws : List Lexeme} :
    Spells (.expr .type value) ws →
    Spells (.expr .type (.channel .receive value)) (.op .arrow :: .keyword .chanKw :: ws)
  | func {params results : List Field} {ws vs : List Lexeme} :
    Spells (.params params) ws → Spells (.results results) vs →
    Spells (.expr .type (.func params results [])) (.keyword .funcKw :: ws ++ vs)
  | struct {fields : List Field} {ws : List Lexeme} :
    Spells (.fields fields) ws →
    Spells (.expr .type (.struct fields))
      (.keyword .structKw :: .op .leftBrace :: ws ++ [.op .rightBrace])
  | interface {methods : List Field} {ws : List Lexeme} :
    Spells (.methods methods) ws →
    Spells (.expr .type (.interface methods))
      (.keyword .interfaceKw :: .op .leftBrace :: ws ++ [.op .rightBrace])
  | paren {x : TypeExpr} {ws : List Lexeme} :
    Spells (.expr .type x) ws →
    Spells (.expr .type (.paren x)) (.op .leftParen :: ws ++ [.op .rightParen])
  -- Array lengths
  | operandName {x : TypeExpr} {ws : List Lexeme} :
    Spells (.expr .base x) ws → Spells (.expr .operand x) ws
  | literal {kind : LiteralKind} {text : String} :
    Spells (.expr .operand (.literal kind text)) [.literal kind text]
  | callEmpty {fn : TypeExpr} {ws : List Lexeme} :
    Spells (.expr .base fn) ws →
    Spells (.expr .operand (.call fn [])) (ws ++ [.op .leftParen, .op .rightParen])
  | call {fn : TypeExpr} {args : List TypeExpr} {ws vs : List Lexeme} :
    Spells (.expr .base fn) ws → Spells (.exprs .length args) vs →
    Spells (.expr .operand (.call fn args)) (ws ++ .op .leftParen :: vs ++ [.op .rightParen])
  | parenLength {x : TypeExpr} {ws : List Lexeme} :
    Spells (.expr .length x) ws →
    Spells (.expr .operand (.paren x)) (.op .leftParen :: ws ++ [.op .rightParen])
  | sign {op : Operator} {x : TypeExpr} {ws : List Lexeme} :
    isSign (.op op) = true → Spells (.expr .operand x) ws →
    Spells (.expr .operand (.unary op.text x)) (.op op :: ws)
  | lengthOperand {x : TypeExpr} {ws : List Lexeme} :
    Spells (.expr .operand x) ws → Spells (.expr .length x) ws
  | arithmetic {op : Operator} {x y : TypeExpr} {ws vs : List Lexeme} :
    isLengthOperator (.op op) = true → Spells (.expr .length x) ws → Spells (.expr .operand y) vs →
    Spells (.expr .length (.binary x op.text y)) (ws ++ .op op :: vs)
  -- Constraints
  | termType {x : TypeExpr} {ws : List Lexeme} : Spells (.expr .type x) ws → Spells (.expr .term x) ws
  | tilde {x : TypeExpr} {ws : List Lexeme} :
    Spells (.expr .type x) ws → Spells (.expr .term (.unary "~" x)) (.op .tilde :: ws)
  | constraintTerm {x : TypeExpr} {ws : List Lexeme} :
    Spells (.expr .term x) ws → Spells (.expr .constraint x) ws
  | union {x y : TypeExpr} {ws vs : List Lexeme} :
    Spells (.expr .constraint x) ws → Spells (.expr .term y) vs →
    Spells (.expr .constraint (.binary x "|" y)) (ws ++ .op .bar :: vs)
  -- Lists of fields
  | entryType {x : TypeExpr} {ws : List Lexeme} :
    Spells (.expr .type x) ws → Spells (.expr .entry x) ws
  | variadic {x : TypeExpr} {ws : List Lexeme} :
    Spells (.expr .type x) ws → Spells (.expr .entry (.variadic x)) (.op .ellipsis :: ws)
  | lastEntry {named : Bool} {names : List String} {x : TypeExpr} {comment : Option CommentGroup}
    {ws : List Lexeme} :
    names.isEmpty = !named → Spells (.expr .entry x) ws →
    Spells (.entries named [{ names := names, type := x, comment := comment }])
      (spellNames names ++ ws)
  | moreEntries {named : Bool} {names : List String} {x : TypeExpr} {comment : Option CommentGroup}
    {fields : List Field} {ws vs : List Lexeme} :
    names.isEmpty = !named → Spells (.expr .entry x) ws → Spells (.entries named fields) vs →
    Spells (.entries named ({ names := names, type := x, comment := comment } :: fields))
      (spellNames names ++ ws ++ .op .comma :: vs)
  | noParams : Spells (.params []) [.op .leftParen, .op .rightParen]
  | someParams {named : Bool} {fields : List Field} {ws : List Lexeme} :
    Spells (.entries named fields) ws →
    Spells (.params fields) (.op .leftParen :: ws ++ [.op .rightParen])
  | noResults : Spells (.results []) []
  | listedResults {fields : List Field} {ws : List Lexeme} :
    Spells (.params fields) ws → Spells (.results fields) ws
  | bareResult {x : TypeExpr} {ws : List Lexeme} :
    (∀ y, x ≠ .paren y) → Spells (.expr .type x) ws →
    Spells (.results [{ names := [], type := x }]) ws
  -- Bodies
  | noFields : Spells (.fields []) []
  | moreFields {names : List String} {x : TypeExpr} {doc comment : Option CommentGroup}
    {tag : Option String} {fields : List Field} {ws vs : List Lexeme} :
    Spells (.expr .type x) ws → Spells (.fields fields) vs →
    Spells (.fields ({ names := names, type := x, doc := doc, comment := comment, tag := tag } :: fields))
      (spellNames names ++ ws ++ spellTag tag ++ .op .semicolon :: vs)
  | noMethods : Spells (.methods []) []
  | method {name : String} {params results : List Field} {doc comment : Option CommentGroup}
    {methods : List Field} {us ws vs : List Lexeme} :
    Spells (.params params) us → Spells (.results results) ws → Spells (.methods methods) vs →
    Spells (.methods
        ({ names := [name], type := .func params results [], doc := doc, comment := comment } :: methods))
      (.ident name :: us ++ ws ++ .op .semicolon :: vs)
  | element {x : TypeExpr} {doc comment : Option CommentGroup} {methods : List Field}
    {ws vs : List Lexeme} :
    Spells (.expr .constraint x) ws → Spells (.methods methods) vs →
    Spells (.methods ({ names := [], type := x, doc := doc, comment := comment } :: methods))
      (ws ++ .op .semicolon :: vs)

/-! ## Without comments -/

mutual

/-- The type without the comments in it, which are not spelled. -/
def TypeExpr.bare : TypeExpr → TypeExpr
  | .name n => .name n
  | .literal kind text => .literal kind text
  | .counted text => .counted text
  | .selector x sel => .selector x.bare sel
  | .pointer x => .pointer x.bare
  | .variadic x => .variadic x.bare
  | .array x none => .array x.bare none
  | .array x (some size) => .array x.bare (some size.bare)
  | .map key value => .map key.bare value.bare
  | .channel dir value => .channel dir value.bare
  | .func params results typeParams =>
    .func (bareFields params) (bareFields results) (bareFields typeParams)
  | .struct fields => .struct (bareFields fields)
  | .interface methods => .interface (bareFields methods)
  | .generic x args => .generic x.bare (bareTypes args)
  | .paren x => .paren x.bare
  | .binary x op y => .binary x.bare op y.bare
  | .unary op x => .unary op x.bare
  | .call fn args => .call fn.bare (bareTypes args)
  | .composite none elts => .composite none (bareTypes elts)
  | .composite (some x) elts => .composite (some x.bare) (bareTypes elts)
  | .unknown => .unknown

/-- The types without the comments in them. -/
def bareTypes : List TypeExpr → List TypeExpr
  | [] => []
  | x :: xs => x.bare :: bareTypes xs

/-- The fields without what is said about them. -/
def bareFields : List Field → List Field
  | [] => []
  | ⟨names, x, _, _, tag⟩ :: fields =>
    { names := names, type := x.bare, tag := tag } :: bareFields fields

end

end Typings
