import Typings.Proofs.Precedence.Forms
import Typings.TsType.OfExpr

/-!
# How types are meant to group

`TypeExpr.grouping` says what a type is to be read as, straight from the type: what is written for a
part of it is a whole in whatever is written around it. `TypeExpr.groups` tells the types whose
rendering is read so.
-/

namespace Typings

namespace TsForm

/-- An array of elements. -/
def array (elt : TsForm) : TsForm := .generic (.name "Array") [elt]

/-- Bytes, which may be given as a string. -/
def bytes (elt : TsForm) : TsForm := .union [.name "string", .array elt]

/-- Something that may be missing. -/
def nullable (x : TsForm) : TsForm := .ofOperands (x.operands ++ [.name "undefined"])

/-- One or the other. -/
def either (x y : TsForm) : TsForm := .ofOperands (x.operands ++ y.operands)

/-- The result of a function from its results. -/
def ofResults : List TsForm → TsForm
  | [] => .name "void"
  | [x] => x
  | xs => .tuple xs

end TsForm

/-- An array or a slice of bytes. -/
def TypeExpr.isBytes : TypeExpr → Bool
  | .array elt _ => elt.isNamed "byte"
  | _ => false

/-- How often the type of a member is written: once for each name that is visible. -/
def memberCount (names : List String) : Nat := (names.filter Name.isVisible).length

/-- How often the type of a parameter or of a result is written: once for each name, and once for
no names. -/
def entryCount (names : List String) : Nat := max names.length 1

mutual

/-- What a type is to be read as with room for so many levels. A pointer may be missing unless a
function returns it. -/
def TypeExpr.grouping : Nat → Bool → TypeExpr → TsForm
  | 0, _, _ => .any
  | room + 1, returned, .pointer x =>
    if returned then x.grouping room false else .nullable (x.grouping room false)
  | room + 1, _, .variadic elt =>
    if elt.isNamed "byte" then .name "string" else .list (elt.grouping room false)
  | room + 1, _, .array elt _ =>
    if elt.isNamed "byte" then .bytes (elt.grouping room false)
    else .array (elt.grouping room false)
  | room + 1, _, .struct fields => .object (groupingsOfValues memberCount room fields)
  | room + 1, _, .interface methods => .object (groupingsOfFields memberCount false room methods)
  | _ + 1, _, .name name => .name ((builtin? name).getD name)
  | _ + 1, _, .selector x sel => .name (x.qualifiedName ++ "." ++ sel)
  | _ + 1, _, .map _ _ => .name dictionaryName
  | _ + 1, _, .literal _ text => .name text
  | _ + 1, _, .counted text => .name text
  | room + 1, _, .paren x => x.grouping room false
  | room + 1, _, .binary x _ y => .either (x.grouping room false) (y.grouping room false)
  | room + 1, _, .func params results _ =>
    .arrow (groupingsOfValues entryCount room params) <| .ofResults <|
      if endsInError results then (groupingsOfFields entryCount true room results).dropLast
      else groupingsOfFields entryCount true room results
  | room + 1, _, .unary _ x => x.grouping room false
  | room + 1, _, .generic x args => .generic (x.grouping room false) (groupingsOfTypes room args)
  | _ + 1, _, .call _ _ => .name "undefined"
  | _ + 1, _, .channel _ _ => .name "undefined"
  | _ + 1, _, .composite _ _ => .name "undefined"
  | _ + 1, _, .unknown => .any

/-- What types are to be read as. -/
def groupingsOfTypes (room : Nat) : List TypeExpr → List TsForm
  | [] => []
  | x :: xs => x.grouping room false :: groupingsOfTypes room xs

/-- What the members of a struct or the parameters of a function are to be read as: a pointer as
what it points to. -/
def groupingsOfValues (count : List String → Nat) (room : Nat) : List Field → List TsForm
  | [] => []
  | ⟨names, .pointer x, _, _, _⟩ :: fields =>
    List.replicate (count names) (x.grouping room false) ++ groupingsOfValues count room fields
  | ⟨names, type, _, _, _⟩ :: fields =>
    List.replicate (count names) (type.grouping room false) ++ groupingsOfValues count room fields

/-- What the methods of an interface or the results of a function are to be read as. -/
def groupingsOfFields (count : List String → Nat) (returned : Bool) (room : Nat) :
    List Field → List TsForm
  | [] => []
  | ⟨names, type, _, _, _⟩ :: fields =>
    List.replicate (count names) (type.grouping room returned)
      ++ groupingsOfFields count returned room fields

end

mutual

/-- The rendering of a type with room for so many levels is read as it is meant, unless somewhere in
it a parameter takes any number of byte slices, or a function type is an operand of a union or stands
behind `~`, and has room to be written. -/
def TypeExpr.groups : Nat → TypeExpr → Bool
  | 0, _ => true
  | room + 1, .pointer x => x.groups room
  | room + 1, .variadic elt =>
    elt.isNamed "byte" || (elt.groups room && !(0 < room && elt.isBytes))
  | room + 1, .array elt _ => elt.groups room
  | room + 1, .struct fields => valuesGroup memberCount room fields
  | room + 1, .interface methods => fieldsGroup memberCount room methods
  | room + 1, .paren x => x.groups room
  | room + 1, .binary x _ y =>
    x.groups room && !(0 < room && x.isFunc) && (y.groups room && !(0 < room && y.isFunc))
  | room + 1, .func params results _ =>
    valuesGroup entryCount room params && fieldsGroup entryCount room results
  | room + 1, .unary _ x => x.groups room && !(0 < room && x.isFunc)
  | room + 1, .generic _ args => typesGroup room args
  | _ + 1, _ => true

/-- The renderings of types are read as they are meant. -/
def typesGroup (room : Nat) : List TypeExpr → Bool
  | [] => true
  | x :: xs => x.groups room && typesGroup room xs

/-- The renderings of the members of a struct or the parameters of a function are read as they are
meant. -/
def valuesGroup (count : List String → Nat) (room : Nat) : List Field → Bool
  | [] => true
  | ⟨names, .pointer x, _, _, _⟩ :: fields =>
    (count names == 0 || x.groups room) && valuesGroup count room fields
  | ⟨names, type, _, _, _⟩ :: fields =>
    (count names == 0 || type.groups room) && valuesGroup count room fields

/-- The renderings of the methods of an interface or the results of a function are read as they are
meant. -/
def fieldsGroup (count : List String → Nat) (room : Nat) : List Field → Bool
  | [] => true
  | ⟨names, type, _, _, _⟩ :: fields =>
    (count names == 0 || type.groups room) && fieldsGroup count room fields

end

/-! ## Lists of fields, field by field -/

theorem groupingsOfValues_cons (count : List String → Nat) (room : Nat) (f : Field)
    (fs : List Field) :
    groupingsOfValues count room (f :: fs) =
      List.replicate (count f.names) (f.type.deref.grouping room false)
        ++ groupingsOfValues count room fs := by
  obtain ⟨names, type, doc, comment, tag⟩ := f
  cases type <;> rfl

theorem valuesGroup_cons (count : List String → Nat) (room : Nat) (f : Field) (fs : List Field) :
    valuesGroup count room (f :: fs) =
      ((count f.names == 0 || f.type.deref.groups room) && valuesGroup count room fs) := by
  obtain ⟨names, type, doc, comment, tag⟩ := f
  cases type <;> rfl

theorem groupingsOfFields_cons (count : List String → Nat) (returned : Bool) (room : Nat)
    (f : Field) (fs : List Field) :
    groupingsOfFields count returned room (f :: fs) =
      List.replicate (count f.names) (f.type.grouping room returned)
        ++ groupingsOfFields count returned room fs := by
  obtain ⟨names, type, doc, comment, tag⟩ := f
  rfl

theorem fieldsGroup_cons (count : List String → Nat) (room : Nat) (f : Field) (fs : List Field) :
    fieldsGroup count room (f :: fs) =
      ((count f.names == 0 || f.type.groups room) && fieldsGroup count room fs) := by
  obtain ⟨names, type, doc, comment, tag⟩ := f
  rfl

end Typings
