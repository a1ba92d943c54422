import Typings.Rendering

/-!
# Sessions

Rendering step by step: each step gives the text of one piece, at a level of indentation of its own,
and notes its issues with those of the steps before it. The type parameters in scope stay until they
are set anew.
-/

namespace Typings

/-- The context of the next step, and what was noted so far. -/
structure Session where
  context : Context
  noted : Diagnostics := {}
  deriving DecidableEq, Repr

namespace Session

/-- A session with nothing in scope and nothing noted. -/
def ofConfig (config : Config) : Session := { context := { config := config } }

/-- A step that gives a text and meets some issues. -/
def emit (s : Session) (text : String) (issues : List Issue) : String × Session :=
  (text, { s with noted := s.noted.add issues })

/-- A type in a slot. -/
def type (s : Session) (depth : Int) (slot : Slot) (x : TypeExpr) : String × Session :=
  let rendered := TsType.ofExpr s.context s.context.room slot x
  s.emit (rendered.text s.context.config.indent depth) rendered.issues

/-- The members of a struct. -/
def structFields (s : Session) (depth : Int) (fields : List Field) : String × Session :=
  let members := structMembers s.context s.context.room fields
  s.emit (textOfMembers s.context.config.indent depth members) (issuesOfMembers members)

/-- The members of an interface. -/
def interfaceFields (s : Session) (depth : Int) (fields : List Field) : String × Session :=
  let members := interfaceMembers s.context s.context.room fields
  s.emit (textOfMembers s.context.config.indent depth members) (issuesOfMembers members)

/-- The parameters of a function. -/
def params (s : Session) (depth : Int) (fields : List Field) : String × Session :=
  let params := paramsFrom s.context s.context.room 0 fields
  s.emit (", ".intercalate (textsOfParams s.context.config.indent depth params))
    (issuesOfParams params)

/-- A function with all the room for its parts, as a value or behind a name. -/
def func (s : Session) (depth : Int) (asValue : Bool) (params results : List Field) :
    String × Session :=
  let rendered := TsType.ofFunc { enclosed := asValue }
    (paramsFrom s.context s.context.room 0 params)
    (.ofResults (withoutError results (resultsOf s.context s.context.room results)))
  s.emit (rendered.text s.context.config.indent depth) rendered.issues

/-- The names of type parameters in angle brackets. -/
def typeParams (s : Session) (fields : List Field) : String × Session :=
  s.emit (typeParamsText (Field.allNames fields)) []

/-- A documentation block. -/
def commentGroup (s : Session) (depth : Int) (group : Option CommentGroup) : String × Session :=
  s.emit (docBlock (indentText s.context.config.indent depth) (docOf group)) []

/-- The end of a line with its comment. -/
def lineEnd (s : Session) (group : Option CommentGroup) : String × Session :=
  s.emit (lineEndText (noteOf group)) []

/-- The indentation of a level. -/
def indentation (s : Session) (depth : Int) : String × Session :=
  s.emit (indentText s.context.config.indent depth) []

/-- The indentation of a level and the word before a declaration. -/
def startModifier (s : Session) (depth : Int) : String × Session :=
  s.emit (indentText s.context.config.indent depth ++ modifierText s.context.config.startModifier) []

/-- Setting the type parameters in scope. -/
def setTypeParams (s : Session) (names : List String) : String × Session :=
  ("", { s with context := { s.context with typeParams := .ofList names } })

/-- A declaration; nothing if it is hidden. -/
def decl (s : Session) (d : Decl) : Except RenderError (String × Session) := do
  let config := s.context.config
  match ← TsDecl.ofDecl s.context d with
  | none => .ok (s.emit "" [])
  | some rendered => .ok (s.emit (rendered.text config.indent config.startModifier) rendered.issues)

end Session

end Typings
