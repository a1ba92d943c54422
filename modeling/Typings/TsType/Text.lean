import Typings.TsType.Basic
import Typings.Text.Line

/-!
# The text of rendered types

Each member of a body stands on a line of its own, one level further in than the body. Comments are
written so that no text of theirs can end them early.
-/

namespace Typings

/-- The indentation of a level; none for a level below zero. -/
def indentText (indent : String) (depth : Int) : String :=
  String.join (List.replicate depth.toNat indent)

/-- The text with a backslash in each end mark of a block comment. -/
def escapeEnd : List Char → List Char
  | '*' :: '/' :: cs => '*' :: '\\' :: '/' :: escapeEnd cs
  | c :: cs => c :: escapeEnd cs
  | [] => []

/-- Backslashes apart, no character comes in. -/
theorem mem_of_mem_escapeEnd {c : Char} {cs : List Char} (other : c ≠ '\\')
    (mem : c ∈ escapeEnd cs) : c ∈ cs := by
  fun_induction escapeEnd cs with
  | case1 cs ih =>
    rcases List.mem_cons.1 mem with rfl | mem
    · exact List.mem_cons_self
    rcases List.mem_cons.1 mem with backslash | mem
    · exact absurd backslash other
    rcases List.mem_cons.1 mem with rfl | mem
    · exact List.mem_cons_of_mem _ List.mem_cons_self
    · exact List.mem_cons_of_mem _ (List.mem_cons_of_mem _ (ih mem))
  | case2 d cs _ ih =>
    rcases List.mem_cons.1 mem with rfl | mem
    · exact List.mem_cons_self
    · exact List.mem_cons_of_mem _ (ih mem)
  | case3 => exact mem

/-- One line of a documentation block, behind its indentation. -/
def docLine (line : String) : String :=
  if line = "" then " *\n" else " * " ++ String.ofList (escapeEnd line.toList) ++ "\n"

/-- A documentation block for some lines; none for no lines. -/
def docBlock (margin : String) (lines : List String) : String :=
  if lines.isEmpty then ""
  else margin ++ "/**\n" ++ String.join (lines.map fun line => margin ++ docLine line)
    ++ margin ++ " */\n"

/-- The end of a line, with the comment that stands there. -/
def lineEndText (note : String) : String := if note = "" then "\n" else " // " ++ note ++ "\n"

/-- The comment behind a parameter. -/
def paramNote (note : String) : String :=
  if note = "" then "" else " /* " ++ String.ofList (escapeEnd note.toList) ++ " */"

/-- Names of type parameters in angle brackets; nothing for none. -/
def typeParamsText (names : List String) : String :=
  if names.isEmpty then "" else "<" ++ ",".intercalate names ++ ">"

mutual

/-- The text of a type that begins on a line with the given level of indentation. -/
def TsType.text (indent : String) (depth : Int) : TsType → String
  | .verbatim text => text
  | .unresolved name => name
  | .cut _ => "any"
  | .dropped _ => ""
  | .array elt => "Array<" ++ elt.text indent depth ++ ">"
  | .bytes elt => "string|Array<" ++ elt.text indent depth ++ ">"
  | .list elt => elt.text indent depth ++ "[]"
  | .paren x => "(" ++ x.text indent depth ++ ")"
  | .nullable x => x.text indent depth ++ " | undefined"
  | .binary x op y => x.text indent depth ++ " " ++ op ++ " " ++ y.text indent depth
  | .generic base args =>
    base.text indent depth ++ "<" ++ ", ".intercalate (textsOfTypes indent depth args) ++ ">"
  | .object members =>
    "\x7b\n" ++ textOfMembers indent (depth + 1) members ++ indentText indent depth ++ "\x7d"
  | .arrow params result =>
    "(" ++ ", ".intercalate (textsOfParams indent depth params) ++ ") => "
      ++ result.text indent depth
  | .signature params result =>
    "(" ++ ", ".intercalate (textsOfParams indent depth params) ++ "): "
      ++ result.text indent depth
  | .tuple items => "[" ++ ", ".intercalate (textsOfTypes indent depth items) ++ "]"

/-- The texts of types. -/
def textsOfTypes (indent : String) (depth : Int) : List TsType → List String
  | [] => []
  | x :: xs => x.text indent depth :: textsOfTypes indent depth xs

/-- Members, each with its documentation above it and a line end behind it. -/
def textOfMembers (indent : String) (depth : Int) : List TsMember → String
  | [] => ""
  | ⟨doc, key, optional, colon, type, note⟩ :: members =>
    docBlock (indentText indent depth) doc ++ indentText indent depth ++ key
      ++ (if optional then "?" else "") ++ (if colon then ": " else "")
      ++ type.text indent depth ++ lineEndText note ++ textOfMembers indent depth members

/-- The texts of parameters. -/
def textsOfParams (indent : String) (depth : Int) : List TsParam → List String
  | [] => []
  | ⟨spread, name, type, note⟩ :: params =>
    ((if spread then "..." else "") ++ name ++ ": " ++ type.text indent depth ++ paramNote note)
      :: textsOfParams indent depth params

end

/-- The word before a top-level declaration. -/
def modifierText (startModifier : String) : String :=
  if startModifier = "" then "" else startModifier ++ " "

/-- The types that an interface extends. -/
def extendsText (indent : String) (bases : List TsType) : String :=
  if bases.isEmpty then ""
  else " extends " ++ ", ".intercalate (textsOfTypes indent 0 bases)

/-- The text of a top-level declaration. -/
def TsDecl.text (indent startModifier : String) : TsDecl → String
  | .interface doc name typeParams bases members =>
    docBlock "" doc ++ modifierText startModifier ++ "interface " ++ name
      ++ typeParamsText typeParams ++ extendsText indent bases ++ " \x7b\n"
      ++ textOfMembers indent 1 members ++ "\x7d\n"
  | .synonym doc name typeParams type note =>
    docBlock "" doc ++ modifierText startModifier ++ "type " ++ name ++ typeParamsText typeParams
      ++ " = " ++ type.text indent 0 ++ lineEndText note

end Typings
