import Typings.Decl.Parser
import Typings.TsDecl.OfDecl
import Typings.TsType.Text

/-!
# Rendering whole files

A rendered file is its heading, the declaration of the dictionary type, and a block for each
declaration that is not hidden, in order and with an empty line between neighbours.
-/

namespace Typings

/-- A text and what was noted while it was rendered. -/
structure Rendering where
  text : String
  noted : Diagnostics
  deriving DecidableEq, Repr

/-- The heading with exactly one newline at its end; none if it is empty. -/
def headingText (heading : String) : Option String :=
  if heading = "" then none
  else some (String.ofList (Text.dropRightWhile (· = '\n') heading.toList ++ ['\n']))

/-- The declaration of the dictionary type. -/
def dictionaryText (startModifier : String) : String :=
  modifierText startModifier ++ "type " ++ dictionaryName
    ++ " = \x7b [key:string | number | symbol]: any; \x7d\n"

/-- The text of a file with the given declarations. -/
def fileText (config : Config) (decls : List TsDecl) : String :=
  "\n".intercalate ((headingText config.heading).toList ++ dictionaryText config.startModifier
    :: decls.map (TsDecl.text config.indent config.startModifier))

/-- Rendering declarations as one file. -/
def Rendering.ofDecls (config : Config) (decls : List Decl) : Except RenderError Rendering := do
  let rendered ← TsDecl.ofDecls { config := config } decls
  .ok ⟨fileText config rendered, ({} : Diagnostics).add (rendered.flatMap TsDecl.issues)⟩

/-- Rendering a type for a slot. -/
def Rendering.ofType (config : Config) (slot : Slot) (x : TypeExpr) : Rendering :=
  let ctx : Context := { config := config }
  let rendered := TsType.ofExpr ctx ctx.room slot x
  ⟨rendered.text config.indent 0, ({} : Diagnostics).add rendered.issues⟩

/-- The names that declarations introduce. -/
def Decl.introduced (decls : List Decl) : NameSet := .ofList (decls.filterMap Decl.name?)

/-- Why a source text cannot be rendered as a file. -/
inductive RenderFailure where
  | source (error : SourceError)
  | render (error : RenderError)
  deriving DecidableEq, Repr

/-- The error in words. -/
def RenderFailure.message : RenderFailure → String
  | .source e => e.message
  | .render e => e.message

/-- Rendering the declarations of a source text as one file. -/
def Rendering.ofSource (config : Config) (source : String) : Except RenderFailure Rendering :=
  match File.parse source with
  | .error e => .error (.source e)
  | .ok file => (Rendering.ofDecls config file.decls).mapError .render

end Typings
