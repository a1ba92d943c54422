import Typings.Diagnostics

/-!
# Rendered types

The types that declarations are written with, as trees. A tree holds every word that is written,
except for layout, so that its text and the issues met on the way to it can both be read off.
-/

namespace Typings

mutual

/-- A type as it is written. -/
inductive TsType where
  /-- Text that is written as it is: a type without parts, or the text of a mapping. -/
  | verbatim (text : String)
  /-- A name that nothing is known about, written as it is. -/
  | unresolved (name : String)
  /-- `any` in place of a type nested too deeply. -/
  | cut (limit : Int)
  /-- Nothing, in place of an operator and its operand. -/
  | dropped (op : String)
  /-- `Array<elt>`. -/
  | array (elt : TsType)
  /-- `string|Array<elt>`, bytes that may be given as a string. -/
  | bytes (elt : TsType)
  /-- `elt[]`. -/
  | list (elt : TsType)
  /-- `(x)`. -/
  | paren (x : TsType)
  /-- `x | undefined`. -/
  | nullable (x : TsType)
  /-- `x op y`. -/
  | binary (x : TsType) (op : String) (y : TsType)
  /-- `base<args>`. -/
  | generic (base : TsType) (args : List TsType)
  /-- A body in braces, a member on each line. -/
  | object (members : List TsMember)
  /-- `(params) => result`, the form of a function as a value. -/
  | arrow (params : List TsParam) (result : TsType)
  /-- `(params): result`, the form of a function behind its name. -/
  | signature (params : List TsParam) (result : TsType)
  /-- `[items]`. -/
  | tuple (items : List TsType)

/-- A member of a body: the lines of its documentation, its key, whether it may be left out, whether
a colon stands before its type, and the comment behind it, empty if there is none. -/
structure TsMember where
  doc : List String
  key : String
  optional : Bool
  colon : Bool
  type : TsType
  note : String

/-- A parameter; `spread` says that it takes the remaining arguments. -/
structure TsParam where
  spread : Bool
  name : String
  type : TsType
  note : String

end

/-- A declaration as it is written: an interface with the types that it extends, or a name for a
type. -/
inductive TsDecl where
  | interface (doc : List String) (name : String) (typeParams : List String)
      (bases : List TsType) (members : List TsMember)
  | synonym (doc : List String) (name : String) (typeParams : List String) (type : TsType)
      (note : String)

/-! ## Issues -/

mutual

/-- The issues of a type, in the order in which its parts are written. -/
def TsType.issues : TsType → List Issue
  | .verbatim _ => []
  | .unresolved name => [.unresolved name]
  | .cut limit => [.tooDeep limit]
  | .dropped op => [.strayOperator op]
  | .array elt | .bytes elt | .list elt => elt.issues
  | .paren x | .nullable x => x.issues
  | .binary x _ y => x.issues ++ y.issues
  | .generic base args => base.issues ++ issuesOfTypes args
  | .object members => issuesOfMembers members
  | .arrow params result | .signature params result => issuesOfParams params ++ result.issues
  | .tuple items => issuesOfTypes items

/-- The issues of types in order. -/
def issuesOfTypes : List TsType → List Issue
  | [] => []
  | x :: xs => x.issues ++ issuesOfTypes xs

/-- The issues of members in order. -/
def issuesOfMembers : List TsMember → List Issue
  | [] => []
  | ⟨_, _, _, _, type, _⟩ :: members => type.issues ++ issuesOfMembers members

/-- The issues of parameters in order. -/
def issuesOfParams : List TsParam → List Issue
  | [] => []
  | ⟨_, _, type, _⟩ :: params => type.issues ++ issuesOfParams params

end

/-- The issues of a declaration in the order in which its parts are written. -/
def TsDecl.issues : TsDecl → List Issue
  | .interface _ _ _ bases members => issuesOfTypes bases ++ issuesOfMembers members
  | .synonym _ _ _ type _ => type.issues

end Typings
