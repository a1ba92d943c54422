import Typings.CommentGroup
import Typings.Token.Basic

/-!
# Type expressions

The types of the source language as they are written: names stay names, literals keep their text,
parentheses are kept. A field is what a struct, an interface, a parameter list, a result list or a
type-parameter list holds; several names may share its type.
-/

namespace Typings

/-- The direction of a channel type. -/
inductive ChannelDir where
  | both
  | receive
  | send
  deriving DecidableEq, Repr

mutual

/-- A type, or one of the expressions that stand in types: array lengths and constraints. -/
inductive TypeExpr where
  /-- A plain identifier. -/
  | name (name : String)
  /-- A literal, as it was written. -/
  | literal (kind : LiteralKind) (text : String)
  /-- The dots in place of an array length that is counted. -/
  | counted (text : String)
  /-- A name of a package, `x.sel`. -/
  | selector (x : TypeExpr) (sel : String)
  /-- `*x`. -/
  | pointer (x : TypeExpr)
  /-- `...elt`, the type of a parameter that takes any number of arguments. -/
  | variadic (elt : TypeExpr)
  /-- `[]elt` or `[length]elt`. -/
  | array (elt : TypeExpr) (length : Option TypeExpr)
  /-- `map[key]value`. -/
  | map (key value : TypeExpr)
  /-- `chan value`, `<-chan value` or `chan<- value`. -/
  | channel (dir : ChannelDir) (value : TypeExpr)
  /-- `func(params) results`. -/
  | func (params results typeParams : List Field)
  /-- A struct body; embedded fields have no names. -/
  | struct (fields : List Field)
  /-- An interface body: methods, and embedded elements without names. -/
  | interface (methods : List Field)
  /-- `x[args]`, a generic type with its arguments. -/
  | generic (x : TypeExpr) (args : List TypeExpr)
  /-- `(x)`. -/
  | paren (x : TypeExpr)
  /-- `x op y`: terms of a constraint, or arithmetic in an array length. -/
  | binary (x : TypeExpr) (op : String) (y : TypeExpr)
  /-- `op x`: `~x` in a constraint, a sign in an array length. -/
  | unary (op : String) (x : TypeExpr)
  /-- `fn(args)`, in an array length. -/
  | call (fn : TypeExpr) (args : List TypeExpr)
  /-- `type{elts}`, a composite value. -/
  | composite (type : Option TypeExpr) (elts : List TypeExpr)
  /-- An expression of no known form. -/
  | unknown

/-- Names with their common type, and what is said about them. -/
structure Field where
  names : List String
  type : TypeExpr
  doc : Option CommentGroup := none
  comment : Option CommentGroup := none
  tag : Option String := none

end

instance : Inhabited TypeExpr := ⟨.unknown⟩

instance : Inhabited Field := ⟨{ names := [], type := .unknown }⟩

namespace TypeExpr

/-- The name, if the type is a plain identifier. -/
def name? : TypeExpr → Option String
  | .name n => some n
  | _ => none

/-- A function type. -/
def isFunc : TypeExpr → Bool
  | .func .. => true
  | _ => false

/-- The plain identifier with this name. -/
def isNamed (name : String) (x : TypeExpr) : Bool := x.name? = some name

/-- A type without its outermost pointer. -/
def deref : TypeExpr → TypeExpr
  | .pointer x => x
  | x => x

/-- The type is a pointer, so that a member of this type may be left out. -/
def isPointer : TypeExpr → Bool
  | .pointer _ => true
  | _ => false

/-- The type takes any number of arguments. -/
def isVariadic : TypeExpr → Bool
  | .variadic _ => true
  | _ => false

/-- A type without its outermost parentheses. -/
def unparen : TypeExpr → TypeExpr
  | .paren x => x
  | x => x

end TypeExpr

namespace Field

/-- Each declared name with its field; a field without names stands once, without a name. -/
def expand (fields : List Field) : List (Option String × Field) :=
  fields.flatMap fun f =>
    if f.names.isEmpty then [(none, f)] else f.names.map fun name => (some name, f)

/-- All names that the fields declare. -/
def allNames (fields : List Field) : List String := fields.flatMap Field.names

/-- The receiver's type name and the names of its type parameters, as in `*Box[T, U]`: the name is
empty if the receiver is not a named type. -/
def receiver (recv : Field) : String × List String :=
  match recv.type.deref.unparen with
  | .generic x args => (x.name?.getD "", args.filterMap TypeExpr.name?)
  | x => (x.name?.getD "", [])

end Field

end Typings
