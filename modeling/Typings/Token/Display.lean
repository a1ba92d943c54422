import Typings.Token.Layout

/-!
# Tokens and comments as they are shown
-/

namespace Typings

/-- A token as it is shown: its class, its text between quotes, and its place. -/
def Token.display (t : Token) : String :=
  "Token(" ++ t.lexeme.label ++ ", " ++ Text.quoted t.lexeme.text ++ ", " ++ toString t.pos.line
    ++ ", " ++ toString t.pos.col ++ ")"

/-- A comment as it is shown: its text between quotes, and the line where it starts. -/
def Comment.display (c : Comment) : String :=
  "Comment(" ++ Text.quoted c.text ++ ", " ++ toString c.pos.line ++ ")"

end Typings
