import Typings.TypeExpr.Basic

/-!
# Declarations

What a source file declares: types and functions. A function with a receiver is a method. Bodies of
functions are not kept.
-/

namespace Typings

/-- `type name[typeParams] type`, or `type name = type` for an alias. -/
structure TypeSpec where
  name : String
  type : TypeExpr
  typeParams : List Field := []
  doc : Option CommentGroup := none
  comment : Option CommentGroup := none
  isAlias : Bool := false

/-- `func (recv) name[typeParams](params) results`. -/
structure FuncDecl where
  name : String
  params : List Field := []
  results : List Field := []
  typeParams : List Field := []
  recv : Option Field := none
  doc : Option CommentGroup := none

/-- The function's type. -/
def FuncDecl.type (d : FuncDecl) : TypeExpr := .func d.params d.results d.typeParams

/-- A declaration; one of no known form cannot be rendered. -/
inductive Decl where
  | typeSpec (spec : TypeSpec)
  | func (decl : FuncDecl)
  | unknown

/-- The name that a declaration introduces, if it is of a known form. -/
def Decl.name? : Decl → Option String
  | .typeSpec spec => some spec.name
  | .func decl => some decl.name
  | .unknown => none

/-- A source file: the name of its package, empty if it states none, and its declarations. -/
structure File where
  package : String
  decls : List Decl

end Typings
