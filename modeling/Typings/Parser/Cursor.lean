import Typings.CommentGroup
import Typings.Token.Layout

/-!
# Cursors

A place between the tokens of a source, together with the comments that nothing has claimed yet.
Comments on lines of their own document what follows them and may be looked up again and again; a
comment behind a token belongs to the first thing that ends before it, and is then gone.
-/

namespace Typings

/-- The tokens passed with the latest first, the tokens ahead, the token that ends the text, and the
comments: those on lines of their own with the latest first, the others in order. -/
structure Cursor where
  passed : List Token
  rest : List Token
  stop : Token
  own : List Comment
  trailing : List Comment
  deriving DecidableEq, Repr

/-- A lexeme with which a type may begin. -/
def Lexeme.startsType : Lexeme → Bool
  | .ident _ => true
  | .op .star | .op .leftBracket | .op .leftParen | .op .arrow => true
  | .keyword .mapKw | .keyword .chanKw | .keyword .funcKw | .keyword .structKw
  | .keyword .interfaceKw => true
  | _ => false

namespace Cursor

/-- The cursor before the first of some tokens. -/
def ofTokens (tokens : List Token) (stop : Token) (comments : List Comment) : Cursor :=
  { passed := []
    rest := tokens
    stop := stop
    own := (comments.filter Comment.ownLine).reverse
    trailing := comments.filter fun c => !c.ownLine }

/-- The cursor at the start of a source. -/
def ofLayout (layout : Layout) : Cursor := ofTokens layout.tokens layout.last layout.comments

/-- The token at the cursor. -/
def current (c : Cursor) : Token := c.rest.headD c.stop

/-- The token some places ahead; past the end, the one that ends the text. -/
def peek (c : Cursor) (n : Nat) : Token := c.rest.getD n c.stop

/-- The token just passed; before the first token, the one that ends the text. -/
def prev (c : Cursor) : Token := c.passed.headD c.stop

/-- The tokens from the one some places ahead on, up to the one that ends the text. Places before the
first token count back from there. -/
def tokensFrom (c : Cursor) (n : Int) : List Token :=
  let tokens := c.passed.reverse ++ c.rest ++ [c.stop]
  let place := c.passed.length + n
  tokens.drop (if place < 0 then tokens.length + place else place).toNat

/-- The token some places ahead or behind. -/
def tokenAt (c : Cursor) (n : Int) : Token := (c.tokensFrom n).headD c.stop

/-- Ahead, only tokens that are not yet passed are met. -/
theorem tokensFrom_natCast (c : Cursor) (n : Nat) :
    c.tokensFrom n = (c.rest ++ [c.stop]).drop n := by
  have h : ¬((c.passed.length : Int) + n < 0) := by omega
  have e : ((c.passed.length : Int) + n).toNat = c.passed.reverse.length + n := by
    rw [List.length_reverse]
    omega
  simp only [tokensFrom, if_neg h, e, List.append_assoc, List.drop_append, Nat.add_sub_cancel_left]
  rw [List.drop_eq_nil_of_le (by omega), List.nil_append]

/-- The places ahead are those of `peek`. -/
theorem tokenAt_natCast (c : Cursor) (n : Nat) : c.tokenAt n = c.peek n := by
  rw [tokenAt, tokensFrom_natCast, peek, List.headD_eq_head?_getD, List.head?_drop,
    List.getD_eq_getElem?_getD]
  grind

/-- The cursor so many tokens further. It stays at the end of the text. -/
def pass (c : Cursor) (n : Nat) : Cursor :=
  { c with passed := (c.rest.take n).reverse ++ c.passed, rest := c.rest.drop n }

/-- The cursor one token further. -/
def advance (c : Cursor) : Cursor := c.pass 1

/-- The cursor behind all semicolons that stand directly ahead. -/
def passSemis (c : Cursor) : Cursor :=
  c.pass (c.rest.takeWhile fun t => t.lexeme = .op .semicolon).length

/-- The texts of the run of comments that ends on the line above the given one: each ends on the
line above the one where the next starts. Of comments that end on one line, the latest counts. -/
def docRun (line : Nat) : List Comment → List String
  | [] => []
  | c :: cs => if c.endLine + 1 = line then docRun c.pos.line cs ++ [c.text] else docRun line cs

/-- The comments on lines of their own that stand directly above a line. -/
def docAbove (c : Cursor) (line : Nat) : Option CommentGroup :=
  match docRun line c.own with
  | [] => none
  | texts => some ⟨texts⟩

/-- The comment stands on the line of the token just passed, behind it and before the token at the
cursor. -/
def trails (c : Cursor) (comment : Comment) : Bool :=
  comment.pos.line = c.prev.pos.line && c.prev.pos.col < comment.pos.col
    && (c.current.pos.line ≠ c.prev.pos.line || comment.pos.col < c.current.pos.col)

/-- The first comment between the token just passed and the next on the line of the former. -/
def commentBehind (c : Cursor) : Option CommentGroup :=
  (c.trailing.find? c.trails).map fun comment => ⟨[comment.text]⟩

/-- The cursor without the comment that `commentBehind` gives. -/
def dropCommentBehind (c : Cursor) : Cursor := { c with trailing := c.trailing.eraseP c.trails }

/-- The bracket that brings the depth down to zero is directly followed by a type. -/
def closesBeforeType (stop : Token) (depth : Int) : List Token → Bool
  | [] => false
  | t :: ts =>
    match t.lexeme with
    | .op .leftBracket => closesBeforeType stop (depth + 1) ts
    | .op .rightBracket =>
      if depth = 1 then (ts.headD stop).lexeme.startsType
      else closesBeforeType stop (depth - 1) ts
    | _ => closesBeforeType stop depth ts

/-- The bracket some places ahead is closed, and directly followed by a type: so `name [4]int` is
told from `Base[int]`. -/
def closesAtType (c : Cursor) (n : Nat) : Bool := closesBeforeType c.stop 0 (c.rest.drop n)

/-- The same for the bracket some places ahead or behind. -/
def closesAtTypeFrom (c : Cursor) (n : Int) : Bool := closesBeforeType c.stop 0 (c.tokensFrom n)

/-- A name and the array type after it stand ahead. -/
def showsNamedArray (c : Cursor) : Bool :=
  c.current.lexeme.isIdent && (c.peek 1).lexeme = .op .leftBracket && c.closesAtType 1

/-- An identifier stands ahead that is the name of a field, and not a type that is embedded. -/
def showsFieldName (c : Cursor) : Bool :=
  c.current.lexeme.isIdent &&
    match (c.peek 1).lexeme with
    | .op .dot | .op .semicolon | .op .rightBrace => false
    | .literal .string _ => false
    | .op .leftBracket => c.closesAtType 1
    | _ => true

/-- Type arguments stand ahead, and not an array of no stated length. -/
def showsTypeArgs (c : Cursor) : Bool :=
  c.current.lexeme = .op .leftBracket && (c.peek 1).lexeme ≠ .op .rightBracket

/-- A method's name stands ahead. -/
def showsMethod (c : Cursor) : Bool :=
  c.current.lexeme.isIdent && (c.peek 1).lexeme = .op .leftParen

end Cursor

end Typings
