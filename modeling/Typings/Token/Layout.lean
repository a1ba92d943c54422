import Typings.Token.Item

/-!
# Layout: from items to tokens

A pass over the items of a source gives each lexeme and each comment its place and puts a semicolon
where a line end finishes a statement: at the newline itself, at a block comment that holds one, and
at the end of the text.
-/

namespace Typings

/-- The tokens and the comments of a source, each in order, and the place where it ends. -/
structure Layout where
  tokens : List Token
  comments : List Comment
  stop : Position
  deriving DecidableEq, Repr

namespace Item

/-- The lexeme is a literal that takes the columns of its characters wherever it stands: one in
interpreted quotes or in rune quotes, in which an escape may hide a newline. -/
def isFlat : Item → Bool
  | .word (.literal .rune _) => true
  | .word (.literal .string text) => text.toList.head? ≠ some '\x60'
  | _ => false

/-- The position after an item. -/
def stop (item : Item) (p : Position) : Position :=
  if item.isFlat then p.right item.text.length else p.after item.text

end Item

/-- The semicolon that a line end at this place brings about, `last` being the last lexeme of the
line, if the line has one. -/
def lineEnd (last : Option Lexeme) (p : Position) : List Token :=
  if last.any Lexeme.endsStatement then [⟨.op .semicolon, p, true⟩] else []

namespace Layout

/-- Some tokens in front of a layout. -/
def withTokens (tokens : List Token) (layout : Layout) : Layout :=
  { layout with tokens := tokens ++ layout.tokens }

/-- A comment in front of a layout. -/
def withComment (comment : Comment) (layout : Layout) : Layout :=
  { layout with comments := comment :: layout.comments }

/-- The layout of items that start at a place, `last` being the last lexeme before them on the same
line, if there is one. -/
def ofItems (p : Position) (last : Option Lexeme) : List Item → Layout
  | [] => ⟨lineEnd last p, [], p⟩
  | item :: items =>
    let next := item.stop p
    match item with
    | .blank _ => ofItems next last items
    | .newline => (ofItems next none items).withTokens (lineEnd last p)
    | .comment text =>
      let comment := ⟨text, p, next.line, last.isNone⟩
      if text.toList.contains '\n' then
        ((ofItems next none items).withTokens (lineEnd last p)).withComment comment
      else (ofItems next last items).withComment comment
    | .word lexeme => (ofItems next (some lexeme) items).withTokens [⟨lexeme, p, false⟩]

/-- The token that ends the text. -/
def last (layout : Layout) : Token := ⟨.eof, layout.stop, false⟩

end Layout

/-- A place where no item can stand. -/
structure ScanError where
  cause : ScanCause
  pos : Position
  deriving DecidableEq, Repr

/-- The error in words, with its place. -/
def ScanError.message (e : ScanError) : String := e.cause.message ++ e.pos.suffix

/-- The layout of a source text. -/
def Layout.ofSource (source : String) : Except ScanError Layout :=
  let (items, fault) := scan source.toList
  let layout := Layout.ofItems .start none items
  match fault with
  | none => .ok layout
  | some cause => .error ⟨cause, layout.stop⟩

end Typings
