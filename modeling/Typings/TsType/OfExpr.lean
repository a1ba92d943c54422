import Typings.Config
import Typings.Name.Basic
import Typings.TsType.Basic
import Typings.TypeExpr.Basic

/-!
# Rendering type expressions

What a value of a type looks like to the scripts that it is handed to. A trailing `error` result is
thrown and not returned, several results come back as a tuple, bytes may be given as a string, every
map is the one dictionary type, and a pointer may be missing.

A type is rendered for the slot where it stands and with room for so many levels: a type without
room is cut to `any`, and each of its parts has one level less.
-/

namespace Typings

/-- What the rendering of a type depends on besides the type: the options, and the type parameters
in scope, which stand for themselves. -/
structure Context where
  config : Config
  typeParams : NameSet := .empty
  deriving DecidableEq, Repr

/-- Where a type stands: among the bases of an interface, as part of another type, as the result of
a function. -/
structure Slot where
  extending : Bool := false
  enclosed : Bool := false
  returned : Bool := false
  deriving DecidableEq, Repr

namespace Slot

/-- No particular slot. -/
def plain : Slot := {}

/-- The slot of a part of another type. -/
def part : Slot := { enclosed := true }

/-- The slot of a base of an interface. -/
def base : Slot := { extending := true }

/-- The slot of a function's result. -/
def result : Slot := { enclosed := true, returned := true }

/-- A pointer in this slot may be missing. A base cannot be, and a result is not. -/
def admitsMissing (slot : Slot) : Bool := !slot.extending && !slot.returned

end Slot

/-- The name of the type of all dictionaries. -/
def dictionaryName : String := "_TygojaDict"

/-- The types with a built-in meaning, in the words of the declarations. -/
def builtin? (name : String) : Option String :=
  if name = "string" then some "string"
  else if name = "bool" then some "boolean"
  else if name = "error" then some "Error"
  else if ["int", "int8", "int16", "int32", "int64", "uint", "uint8", "uint16", "uint32", "uint64",
      "float32", "float64", "complex64", "complex128", "uintptr", "byte", "rune"].contains name then
    some "number"
  else none

/-- A plain or qualified name with dots between its parts; empty for anything else. -/
def TypeExpr.qualifiedName : TypeExpr → String
  | .name n => n
  | .selector x sel => x.qualifiedName ++ "." ++ sel
  | _ => ""

namespace Context

/-- The levels of types that may be nested. -/
def room (ctx : Context) : Nat := ctx.config.maxDepth.toNat

/-- The context inside a declaration with these type parameters. -/
def within (ctx : Context) (names : List String) : Context :=
  { ctx with typeParams := ctx.typeParams.insertAll names }

/-- A plain name: a type parameter stands for itself, a mapping wins over a built-in meaning. -/
def ofName (ctx : Context) (name : String) : TsType :=
  if ctx.typeParams.contains name then .verbatim name
  else
    match (ctx.config.mappings.find? name).or (builtin? name) with
    | some text => .verbatim text
    | none => .unresolved name

/-- A qualified name, if its qualifier is one. -/
def ofSelector (ctx : Context) (x : TypeExpr) (sel : String) : TsType :=
  if x.qualifiedName = "" then .verbatim "any"
  else
    match ctx.config.mappings.findQualified? x.qualifiedName sel with
    | some text => .verbatim text
    | none => .unresolved (x.qualifiedName ++ "." ++ sel)

end Context

namespace TsType

/-- A type in parentheses if asked for. -/
def parenIf (enclose : Bool) (x : TsType) : TsType := if enclose then .paren x else x

/-- A pointer in a slot, from the rendering of what it points to. Where it may be missing, a
function is enclosed, and so is the whole if it is part of another type. -/
def pointerTo (slot : Slot) (isFunc : Bool) (x : TsType) : TsType :=
  if slot.admitsMissing then parenIf slot.enclosed (.nullable (parenIf isFunc x)) else x

/-- The result of a function from the renderings of its results. -/
def ofResults : List TsType → TsType
  | [] => .verbatim "void"
  | [x] => x
  | xs => .tuple xs

/-- A function in a slot. -/
def ofFunc (slot : Slot) (params : List TsParam) (result : TsType) : TsType :=
  if slot.enclosed then .arrow params result else .signature params result

end TsType

/-- The comment as one line, empty if there is none. -/
def noteOf (comment : Option CommentGroup) : String := (comment.map CommentGroup.line).getD ""

/-- The lines of the documentation, none if there is none. -/
def docOf (doc : Option CommentGroup) : List String := (doc.map CommentGroup.lines).getD []

/-- The members that a struct field gives, one for each exported name. -/
def TsMember.ofField (style : NameStyle) (f : Field) (optional colon : Bool) (type : TsType) :
    List TsMember :=
  (f.names.filter Name.isVisible).map fun name =>
    { doc := docOf f.doc, key := Name.propertyKey (style.apply name), optional := optional,
      colon := colon, type := type, note := noteOf f.comment }

/-- The name of a parameter, given its place and that of its field: a name of its own, unless it
could not name a variable. -/
def TsParam.nameAt (i j : Nat) (name : String) : String :=
  if name = "" || Name.isReserved name then "_arg" ++ toString i ++ toString j else name

/-- The names of a field's parameters, given the place of the field; one if the field has none. -/
def TsParam.namesAt (i : Nat) (names : List String) : List String :=
  if names.isEmpty then ["_arg" ++ toString i]
  else names.mapIdx fun j name => nameAt i j name

/-- The parameters that a field gives, from the place of the field. -/
def TsParam.ofField (i : Nat) (f : Field) (type : TsType) : List TsParam :=
  (namesAt i f.names).map fun name =>
    { spread := f.type.isVariadic, name := name, type := type, note := noteOf f.comment }

/-- The last result is an error, which is thrown and not returned. -/
def endsInError (results : List Field) : Bool :=
  (results.getLast?.map fun f => f.type.isNamed "error").getD false

/-- The renderings of a function's results without that of a trailing error. -/
def withoutError (results : List Field) (rendered : List TsType) : List TsType :=
  if endsInError results then rendered.dropLast else rendered

mutual

/-- A type expression, rendered for a slot with room for so many levels. -/
def TsType.ofExpr (ctx : Context) : Nat → Slot → TypeExpr → TsType
  | 0, _, _ => .cut ctx.config.maxDepth
  | room + 1, slot, .pointer x =>
    .pointerTo slot x.isFunc (.ofExpr ctx room (if x.isFunc then .part else .plain) x)
  | room + 1, _, .variadic elt =>
    if elt.isNamed "byte" then .verbatim "string"
    else .list (.parenIf elt.isFunc (.ofExpr ctx room .part elt))
  | room + 1, slot, .array elt _ =>
    if elt.isNamed "byte" && !slot.extending then .bytes (.ofExpr ctx room .part elt)
    else .array (.ofExpr ctx room .part elt)
  | room + 1, _, .struct fields => .object (structMembers ctx room fields)
  | room + 1, _, .interface methods => .object (interfaceMembers ctx room methods)
  | _ + 1, _, .name name => ctx.ofName name
  | _ + 1, _, .selector x sel => ctx.ofSelector x sel
  | _ + 1, _, .map _ _ => .verbatim dictionaryName
  | _ + 1, _, .literal _ text => .verbatim text
  | _ + 1, _, .counted text => .verbatim text
  | room + 1, _, .paren x => .paren (.ofExpr ctx room .part x)
  | room + 1, _, .binary x op y =>
    .binary (.ofExpr ctx room .part x) op (.ofExpr ctx room .part y)
  | room + 1, slot, .func params results _ =>
    .ofFunc slot (paramsFrom ctx room 0 params)
      (.ofResults (withoutError results (resultsOf ctx room results)))
  | room + 1, _, .unary op x => if op = "~" then .ofExpr ctx room .plain x else .dropped op
  | room + 1, _, .generic x args =>
    .generic (.ofExpr ctx room .plain x) (typesOf ctx room args)
  | _ + 1, _, .call _ _ => .verbatim "undefined"
  | _ + 1, _, .channel _ _ => .verbatim "undefined"
  | _ + 1, _, .composite _ _ => .verbatim "undefined"
  | _ + 1, _, .unknown => .verbatim "any"

/-- Types that are parts of another one. -/
def typesOf (ctx : Context) (room : Nat) : List TypeExpr → List TsType
  | [] => []
  | x :: xs => .ofExpr ctx room .part x :: typesOf ctx room xs

/-- The exported members of a struct; one with a pointer may be left out. -/
def structMembers (ctx : Context) (room : Nat) : List Field → List TsMember
  | [] => []
  | ⟨names, .pointer x, doc, comment, tag⟩ :: fields =>
    TsMember.ofField ctx.config.fieldNames ⟨names, .pointer x, doc, comment, tag⟩ true true
      (.ofExpr ctx room .part x) ++ structMembers ctx room fields
  | ⟨names, type, doc, comment, tag⟩ :: fields =>
    TsMember.ofField ctx.config.fieldNames ⟨names, type, doc, comment, tag⟩ false true
      (.ofExpr ctx room .part type) ++ structMembers ctx room fields

/-- The exported methods of an interface. -/
def interfaceMembers (ctx : Context) (room : Nat) : List Field → List TsMember
  | [] => []
  | ⟨names, type, doc, comment, tag⟩ :: fields =>
    TsMember.ofField ctx.config.methodNames ⟨names, type, doc, comment, tag⟩ false (!type.isFunc)
      (.ofExpr ctx room .plain type) ++ interfaceMembers ctx room fields

/-- The parameters of a function from the given place on; a pointer is rendered as what it points
to. -/
def paramsFrom (ctx : Context) (room i : Nat) : List Field → List TsParam
  | [] => []
  | ⟨names, .pointer x, doc, comment, tag⟩ :: fields =>
    TsParam.ofField i ⟨names, .pointer x, doc, comment, tag⟩ (.ofExpr ctx room .part x)
      ++ paramsFrom ctx room (i + 1) fields
  | ⟨names, type, doc, comment, tag⟩ :: fields =>
    TsParam.ofField i ⟨names, type, doc, comment, tag⟩ (.ofExpr ctx room .part type)
      ++ paramsFrom ctx room (i + 1) fields

/-- All results of a function, one for each name. -/
def resultsOf (ctx : Context) (room : Nat) : List Field → List TsType
  | [] => []
  | ⟨names, type, _, _, _⟩ :: fields =>
    List.replicate (max names.length 1) (.ofExpr ctx room .result type)
      ++ resultsOf ctx room fields

end

theorem mem_of_builtin? {name text : String} (h : builtin? name = some text) :
    text ∈ ["string", "boolean", "Error", "number"] := by
  unfold builtin? at h
  split at h
  · cases h; decide
  split at h
  · cases h; decide
  split at h
  · cases h; decide
  split at h
  · cases h; decide
  · cases h

/-! ## Lists of fields, field by field -/

theorem typesOf_eq_map (ctx : Context) (room : Nat) (xs : List TypeExpr) :
    typesOf ctx room xs = xs.map (.ofExpr ctx room .part) := by
  induction xs with
  | nil => rfl
  | cons x xs ih => rw [typesOf, ih, List.map_cons]

/-- A struct field gives its members from what its type points to. -/
theorem structMembers_cons (ctx : Context) (room : Nat) (f : Field) (fs : List Field) :
    structMembers ctx room (f :: fs) =
      TsMember.ofField ctx.config.fieldNames f f.type.isPointer true
        (.ofExpr ctx room .part f.type.deref) ++ structMembers ctx room fs := by
  obtain ⟨names, type, doc, comment, tag⟩ := f
  cases type <;> rfl

theorem interfaceMembers_cons (ctx : Context) (room : Nat) (f : Field) (fs : List Field) :
    interfaceMembers ctx room (f :: fs) =
      TsMember.ofField ctx.config.methodNames f false (!f.type.isFunc)
        (.ofExpr ctx room .plain f.type) ++ interfaceMembers ctx room fs := by
  obtain ⟨names, type, doc, comment, tag⟩ := f
  rfl

/-- A field gives its parameters from what its type points to. -/
theorem paramsFrom_cons (ctx : Context) (room i : Nat) (f : Field) (fs : List Field) :
    paramsFrom ctx room i (f :: fs) =
      TsParam.ofField i f (.ofExpr ctx room .part f.type.deref)
        ++ paramsFrom ctx room (i + 1) fs := by
  obtain ⟨names, type, doc, comment, tag⟩ := f
  cases type <;> rfl

theorem resultsOf_cons (ctx : Context) (room : Nat) (f : Field) (fs : List Field) :
    resultsOf ctx room (f :: fs) =
      List.replicate (max f.names.length 1) (.ofExpr ctx room .result f.type)
        ++ resultsOf ctx room fs := by
  obtain ⟨names, type, doc, comment, tag⟩ := f
  rfl

theorem resultsOf_append (ctx : Context) (room : Nat) (fs gs : List Field) :
    resultsOf ctx room (fs ++ gs) = resultsOf ctx room fs ++ resultsOf ctx room gs := by
  induction fs with
  | nil => rfl
  | cons f fs ih => rw [List.cons_append, resultsOf_cons, resultsOf_cons, ih, List.append_assoc]

theorem TypeExpr.eq_name_of_isNamed {name : String} {x : TypeExpr} (h : x.isNamed name = true) :
    x = .name name := by
  cases x <;> simp_all [isNamed, name?]

/-- Results that end in an error have a last field, and that is its type. -/
theorem exists_of_endsInError {results : List Field} (h : endsInError results = true) :
    ∃ init f, results = init ++ [f] ∧ f.type = .name "error" := by
  unfold endsInError at h
  cases last : results.getLast? with
  | none =>
    rw [last] at h
    cases h
  | some f =>
    rw [last] at h
    obtain ⟨init, rfl⟩ := List.getLast?_eq_some_iff.1 last
    exact ⟨init, f, rfl, TypeExpr.eq_name_of_isNamed h⟩

end Typings
