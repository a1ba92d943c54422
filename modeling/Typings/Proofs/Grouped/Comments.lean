import Typings.Decl.Parser

/-!
# Types with their comments put through a function

`mapComments f` puts every comment in a type, a field or a specification through `f`, which may drop it,
and leaves all else as it is. Two values that agree under it are the same up to what `f` tells apart of
their comments: they are equal if it keeps them all (`TypeSpec.mapComments_some`), and if it drops them
all, only their comments may differ.
-/

namespace Typings

mutual

/-- The type with all comments in it put through a function; array lengths hold none. -/
def TypeExpr.mapComments (f : CommentGroup → Option CommentGroup) : TypeExpr → TypeExpr
  | .pointer x => .pointer (x.mapComments f)
  | .variadic elt => .variadic (elt.mapComments f)
  | .array elt length => .array (elt.mapComments f) length
  | .map key value => .map (key.mapComments f) (value.mapComments f)
  | .channel dir value => .channel dir (value.mapComments f)
  | .func params results typeParams =>
    .func (mapCommentsOfFields f params) (mapCommentsOfFields f results)
      (mapCommentsOfFields f typeParams)
  | .struct fields => .struct (mapCommentsOfFields f fields)
  | .interface methods => .interface (mapCommentsOfFields f methods)
  | .generic x args => .generic (x.mapComments f) (mapCommentsOfTypes f args)
  | .paren x => .paren (x.mapComments f)
  | .binary x op y => .binary (x.mapComments f) op (y.mapComments f)
  | .unary op x => .unary op (x.mapComments f)
  | x => x

/-- Several types with all comments in them put through a function. -/
def mapCommentsOfTypes (f : CommentGroup → Option CommentGroup) : List TypeExpr → List TypeExpr
  | [] => []
  | x :: xs => x.mapComments f :: mapCommentsOfTypes f xs

/-- Fields with all comments on them and in them put through a function. -/
def mapCommentsOfFields (f : CommentGroup → Option CommentGroup) : List Field → List Field
  | [] => []
  | ⟨names, type, doc, comment, tag⟩ :: fields =>
    ⟨names, type.mapComments f, doc.bind f, comment.bind f, tag⟩ :: mapCommentsOfFields f fields

end

variable {f : CommentGroup → Option CommentGroup}

/-- The field with all comments on it and in it put through a function. -/
def Field.mapComments (f : CommentGroup → Option CommentGroup) (field : Field) : Field :=
  { field with type := field.type.mapComments f, doc := field.doc.bind f,
               comment := field.comment.bind f }

/-- The specification with all comments on it and in it put through a function. -/
def TypeSpec.mapComments (f : CommentGroup → Option CommentGroup) (spec : TypeSpec) : TypeSpec :=
  { spec with type := spec.type.mapComments f, typeParams := spec.typeParams.map (Field.mapComments f),
              doc := spec.doc.bind f, comment := spec.comment.bind f }

theorem mapCommentsOfTypes_eq_map (xs : List TypeExpr) :
    mapCommentsOfTypes f xs = xs.map (TypeExpr.mapComments f) := by
  induction xs with
  | nil => rfl
  | cons x xs ih => rw [mapCommentsOfTypes, ih, List.map_cons]

theorem mapCommentsOfFields_eq_map (fields : List Field) :
    mapCommentsOfFields f fields = fields.map (Field.mapComments f) := by
  induction fields with
  | nil => rfl
  | cons field fields ih =>
    obtain ⟨names, type, doc, comment, tag⟩ := field
    rw [mapCommentsOfFields, ih, List.map_cons]
    rfl

namespace TypeExpr

/-- The comments of a function are those of its fields. -/
theorem mapComments_func (params results typeParams : List Field) :
    (func params results typeParams).mapComments f = .func (params.map (Field.mapComments f))
      (results.map (Field.mapComments f)) (typeParams.map (Field.mapComments f)) := by
  rw [mapComments, mapCommentsOfFields_eq_map, mapCommentsOfFields_eq_map, mapCommentsOfFields_eq_map]

/-- The comments of a struct are those of its fields. -/
theorem mapComments_struct (fields : List Field) :
    (struct fields).mapComments f = .struct (fields.map (Field.mapComments f)) := by
  rw [mapComments, mapCommentsOfFields_eq_map]

/-- The comments of an interface are those of its methods. -/
theorem mapComments_interface (methods : List Field) :
    (interface methods).mapComments f = .interface (methods.map (Field.mapComments f)) := by
  rw [mapComments, mapCommentsOfFields_eq_map]

theorem mapComments_generic (x : TypeExpr) (args : List TypeExpr) :
    (generic x args).mapComments f = .generic (x.mapComments f) (args.map (mapComments f)) := by
  rw [mapComments, mapCommentsOfTypes_eq_map]

/-- A name has no comments, and nothing else becomes a name. -/
theorem mapComments_eq_name {x : TypeExpr} {name : String} :
    x.mapComments f = .name name ↔ x = .name name := by
  cases x <;> simp [mapComments]

end TypeExpr

/-! ## All comments kept -/

mutual

/-- Nothing changes if all comments are kept. -/
theorem TypeExpr.mapComments_some : ∀ x : TypeExpr, x.mapComments some = x
  | .pointer x | .variadic x | .array x _ | .channel _ x | .paren x | .unary _ x => by
    rw [TypeExpr.mapComments, x.mapComments_some]
  | .map x y | .binary x _ y => by rw [TypeExpr.mapComments, x.mapComments_some, y.mapComments_some]
  | .func params results typeParams => by
    rw [TypeExpr.mapComments, mapCommentsOfFields_some params, mapCommentsOfFields_some results,
      mapCommentsOfFields_some typeParams]
  | .struct fields | .interface fields => by rw [TypeExpr.mapComments, mapCommentsOfFields_some fields]
  | .generic x args => by rw [TypeExpr.mapComments, x.mapComments_some, mapCommentsOfTypes_some args]
  | .name _ | .literal _ _ | .counted _ | .selector _ _ | .call _ _ | .composite _ _ | .unknown => rfl

/-- To keep every comment changes no type. -/
theorem mapCommentsOfTypes_some : ∀ xs : List TypeExpr, mapCommentsOfTypes some xs = xs
  | [] => rfl
  | x :: xs => by rw [mapCommentsOfTypes, x.mapComments_some, mapCommentsOfTypes_some xs]

/-- To keep every comment changes no field. -/
theorem mapCommentsOfFields_some : ∀ fields : List Field, mapCommentsOfFields some fields = fields
  | [] => rfl
  | ⟨names, type, doc, comment, tag⟩ :: fields => by
    rw [mapCommentsOfFields, type.mapComments_some, mapCommentsOfFields_some fields,
      Option.bind_fun_some, Option.bind_fun_some]

end

/-- To keep every comment changes no specification. -/
theorem TypeSpec.mapComments_some (spec : TypeSpec) : spec.mapComments some = spec := by
  have fields : spec.typeParams.map (Field.mapComments some) = spec.typeParams := by
    rw [← mapCommentsOfFields_eq_map, mapCommentsOfFields_some]
  rw [mapComments, TypeExpr.mapComments_some, fields, Option.bind_fun_some, Option.bind_fun_some]

end Typings
