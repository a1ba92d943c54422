import Typings.Text.Line

/-!
# Comment groups

A run of comments that documents one thing. Its text is what is left without the markers, without
blanks at line ends and without blank lines at either end; its lines are those of the text.
-/

namespace Typings

/-- Adjacent comments, each with its markers. -/
structure CommentGroup where
  comments : List String
  deriving DecidableEq, Repr

namespace CommentGroup

/-- A text without a given ending. -/
def dropEnding (ending cs : List Char) : List Char :=
  if ending.isSuffixOf cs then cs.take (cs.length - ending.length) else cs

/-- One comment without its markers. A line comment also loses the space after its marker, a block
comment is cut into its lines, and a text without a marker stays as it is. -/
def stripMarkers : List Char → List (List Char)
  | '/' :: '/' :: ' ' :: body => [body]
  | '/' :: '/' :: body => [body]
  | '/' :: '*' :: body => Text.splitLines (dropEnding ['*', '/'] body)
  | body => [body]

/-- The lines without the empty ones at both ends. -/
def trimEmpty (lines : List (List Char)) : List (List Char) :=
  ((lines.dropWhile List.isEmpty).reverse.dropWhile List.isEmpty).reverse

/-- What the comments say, piece by piece. -/
def pieces (group : CommentGroup) : List (List Char) :=
  trimEmpty ((group.comments.flatMap fun c => stripMarkers c.toList).map Text.trimRight)

/-- What the comments say, without the last line end; empty if they say nothing. -/
def body (group : CommentGroup) : List Char := Text.joinWith ['\n'] group.pieces

/-- The lines of the text. -/
def lines (group : CommentGroup) : List String :=
  if group.pieces.isEmpty then [] else (Text.splitLines group.body).map String.ofList

/-- The text: each line ended by a newline. -/
def text (group : CommentGroup) : String :=
  if group.pieces.isEmpty then "" else String.ofList (group.body ++ ['\n'])

/-- The lines as one line. -/
def line (group : CommentGroup) : String := " ".intercalate group.lines

end CommentGroup

end Typings
