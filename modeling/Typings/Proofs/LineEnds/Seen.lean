import Typings.Proofs.LineEnds.Comments
import Typings.Rendering

/-!
# What a rendering sees

Of declarations, a rendering sees neither the lengths of arrays nor tags, nor what is inside maps and
channels, and of comments it sees no more than their lines. Declarations without all of that (`Decl.seen`)
are rendered as they are with it (`TsDecl.ofDecls_seen`).
-/

namespace Typings

/-! ## Types and declarations as they are seen -/

mutual

/-- What is seen of a type. -/
def TypeExpr.seen : TypeExpr → TypeExpr
  | .pointer x => .pointer x.seen
  | .variadic elt => .variadic elt.seen
  | .array elt _ => .array elt.seen none
  | .map _ _ => .map .unknown .unknown
  | .channel _ _ => .channel .both .unknown
  | .func params results typeParams =>
    .func (seenFields params) (seenFields results) (seenFields typeParams)
  | .struct fields => .struct (seenFields fields)
  | .interface methods => .interface (seenFields methods)
  | .generic x args => .generic x.seen (seenTypes args)
  | .paren x => .paren x.seen
  | .binary x op y => .binary x.seen op y.seen
  | .unary op x => .unary op x.seen
  | x => x

/-- What is seen of several types. -/
def seenTypes : List TypeExpr → List TypeExpr
  | [] => []
  | x :: xs => x.seen :: seenTypes xs

/-- What is seen of fields. -/
def seenFields : List Field → List Field
  | [] => []
  | ⟨names, type, doc, comment, _⟩ :: fields =>
    ⟨names, type.seen, doc.map CommentGroup.plain, comment.map CommentGroup.plain, none⟩ ::
      seenFields fields

end

/-- What is seen of a field: neither its tag nor how its comments are written. -/
def Field.seen (f : Field) : Field :=
  { names := f.names, type := f.type.seen, doc := f.doc.map CommentGroup.plain,
    comment := f.comment.map CommentGroup.plain }

/-- What is seen of a type specification. -/
def TypeSpec.seen (spec : TypeSpec) : TypeSpec :=
  { spec with type := spec.type.seen, typeParams := spec.typeParams.map Field.seen,
              doc := spec.doc.map CommentGroup.plain, comment := spec.comment.map CommentGroup.plain }

/-- What is seen of a function. -/
def FuncDecl.seen (decl : FuncDecl) : FuncDecl :=
  { name := decl.name, params := decl.params.map Field.seen, results := decl.results.map Field.seen,
    typeParams := decl.typeParams.map Field.seen, recv := decl.recv.map Field.seen,
    doc := decl.doc.map CommentGroup.plain }

/-- What is seen of a declaration. -/
def Decl.seen : Decl → Decl
  | .typeSpec spec => .typeSpec spec.seen
  | .func decl => .func decl.seen
  | .unknown => .unknown

theorem seenTypes_eq_map (xs : List TypeExpr) : seenTypes xs = xs.map TypeExpr.seen := by
  induction xs with
  | nil => rfl
  | cons x xs ih => rw [seenTypes, ih, List.map_cons]

theorem seenFields_eq_map (fs : List Field) : seenFields fs = fs.map Field.seen := by
  induction fs with
  | nil => rfl
  | cons f fs ih =>
    obtain ⟨names, type, doc, comment, tag⟩ := f
    rw [seenFields, ih, List.map_cons]
    rfl

namespace TypeExpr

theorem seen_func (params results typeParams : List Field) :
    (func params results typeParams).seen =
      .func (params.map Field.seen) (results.map Field.seen) (typeParams.map Field.seen) := by
  rw [seen, seenFields_eq_map, seenFields_eq_map, seenFields_eq_map]

theorem seen_struct (fields : List Field) : (struct fields).seen = .struct (fields.map Field.seen) := by
  rw [seen, seenFields_eq_map]

theorem seen_interface (methods : List Field) :
    (interface methods).seen = .interface (methods.map Field.seen) := by
  rw [seen, seenFields_eq_map]

theorem seen_generic (x : TypeExpr) (args : List TypeExpr) :
    (generic x args).seen = .generic x.seen (args.map seen) := by
  rw [seen, seenTypes_eq_map]

/-- A name is seen as it is, and nothing else is seen as a name. -/
theorem seen_eq_name {x : TypeExpr} {name : String} : x.seen = .name name ↔ x = .name name := by
  cases x <;> simp [seen]

/-- What shows of a type at its head is seen. -/
theorem head_seen (x : TypeExpr) :
    x.seen.name? = x.name? ∧ x.seen.isFunc = x.isFunc ∧ x.seen.isPointer = x.isPointer ∧
      x.seen.isVariadic = x.isVariadic ∧ x.seen.deref = x.deref.seen ∧
      x.seen.unparen = x.unparen.seen := by
  cases x <;> exact ⟨rfl, rfl, rfl, rfl, rfl, rfl⟩

@[simp] theorem name?_seen (x : TypeExpr) : x.seen.name? = x.name? := x.head_seen.1

@[simp] theorem isNamed_seen (name : String) (x : TypeExpr) : x.seen.isNamed name = x.isNamed name := by
  rw [isNamed, isNamed, name?_seen]

@[simp] theorem isFunc_seen (x : TypeExpr) : x.seen.isFunc = x.isFunc := x.head_seen.2.1

@[simp] theorem isPointer_seen (x : TypeExpr) : x.seen.isPointer = x.isPointer := x.head_seen.2.2.1

@[simp] theorem isVariadic_seen (x : TypeExpr) : x.seen.isVariadic = x.isVariadic :=
  x.head_seen.2.2.2.1

@[simp] theorem deref_seen (x : TypeExpr) : x.seen.deref = x.deref.seen := x.head_seen.2.2.2.2.1

@[simp] theorem unparen_seen (x : TypeExpr) : x.seen.unparen = x.unparen.seen := x.head_seen.2.2.2.2.2

@[simp] theorem visibleName_seen (x : TypeExpr) : x.seen.visibleName = x.visibleName := by
  rw [visibleName, visibleName, deref_seen]
  cases x.deref with
  | generic base args => cases base <;> rfl
  | _ => rfl

end TypeExpr

namespace Field

@[simp] theorem allNames_map_seen (fs : List Field) : allNames (fs.map Field.seen) = allNames fs := by
  rw [allNames, List.flatMap_map, allNames]
  rfl

@[simp] theorem receiver_seen (recv : Field) : recv.seen.receiver = recv.receiver := by
  have type : recv.seen.type = recv.type.seen := rfl
  rw [receiver, receiver, type, TypeExpr.deref_seen, TypeExpr.unparen_seen]
  cases recv.type.deref.unparen with
  | generic x args =>
    have names : TypeExpr.name? ∘ TypeExpr.seen = TypeExpr.name? := funext TypeExpr.name?_seen
    rw [TypeExpr.seen_generic]
    dsimp only
    rw [TypeExpr.name?_seen, List.filterMap_map, names]
  | _ => rfl

theorem endsInError_seen (results : List Field) :
    endsInError (results.map Field.seen) = endsInError results := by
  have same : (fun f : Field => f.type.isNamed "error") ∘ Field.seen =
      fun f => f.type.isNamed "error" := funext fun f => TypeExpr.isNamed_seen "error" f.type
  rw [endsInError, endsInError, List.getLast?_map, Option.map_map, same]

end Field

/-! ## Comments -/

/-- Documentation is written by its lines, in which line ends do not show. -/
theorem docOf_plain (doc : Option CommentGroup) : docOf (doc.map CommentGroup.plain) = docOf doc := by
  cases doc with
  | none => rfl
  | some group => simp only [docOf, Option.map_some, Option.getD_some, CommentGroup.lines_plain]

/-- A note is written by its lines, in which line ends do not show. -/
theorem noteOf_plain (comment : Option CommentGroup) :
    noteOf (comment.map CommentGroup.plain) = noteOf comment := by
  cases comment with
  | none => rfl
  | some group =>
    simp only [noteOf, Option.map_some, Option.getD_some, CommentGroup.line, CommentGroup.lines_plain]

/-! ## Types -/

/-- The members of a field are made of what it shows. -/
theorem TsMember.ofField_seen (style : NameStyle) (f : Field) (optional colon : Bool) (type : TsType) :
    ofField style f.seen optional colon type = ofField style f optional colon type := by
  rw [ofField, ofField, Field.seen, docOf_plain, noteOf_plain]

/-- The parameters of a field are made of what it shows. -/
theorem TsParam.ofField_seen (i : Nat) (f : Field) (type : TsType) :
    ofField i f.seen type = ofField i f type := by
  rw [ofField, ofField, Field.seen, TypeExpr.isVariadic_seen, noteOf_plain]

/-- An error at the end is told by what the results show. -/
theorem withoutError_seen (results : List Field) (rendered : List TsType) :
    withoutError (results.map Field.seen) rendered = withoutError results rendered := by
  rw [withoutError, withoutError, Field.endsInError_seen]

/-- With so much room, every type is rendered as what is seen of it. -/
def RendersSeen (ctx : Context) (room : Nat) : Prop :=
  ∀ slot x, TsType.ofExpr ctx room slot x.seen = TsType.ofExpr ctx room slot x

namespace RendersSeen

variable {ctx : Context} {room : Nat}

theorem typesOf (h : RendersSeen ctx room) (xs : List TypeExpr) :
    Typings.typesOf ctx room (xs.map TypeExpr.seen) = Typings.typesOf ctx room xs := by
  rw [typesOf_eq_map, typesOf_eq_map, List.map_map]
  exact List.map_congr_left fun x _ => h .part x

/-- The members of a struct are made of what its fields show. -/
theorem structMembers (h : RendersSeen ctx room) (fs : List Field) :
    Typings.structMembers ctx room (fs.map Field.seen) = Typings.structMembers ctx room fs := by
  induction fs with
  | nil => rfl
  | cons f fs ih =>
    rw [List.map_cons, structMembers_cons, structMembers_cons, ih, TsMember.ofField_seen,
      show f.seen.type = f.type.seen from rfl, TypeExpr.isPointer_seen, TypeExpr.deref_seen, h]

/-- The members of an interface are made of what its methods show. -/
theorem interfaceMembers (h : RendersSeen ctx room) (fs : List Field) :
    Typings.interfaceMembers ctx room (fs.map Field.seen) = Typings.interfaceMembers ctx room fs := by
  induction fs with
  | nil => rfl
  | cons f fs ih =>
    rw [List.map_cons, interfaceMembers_cons, interfaceMembers_cons, ih, TsMember.ofField_seen,
      show f.seen.type = f.type.seen from rfl, TypeExpr.isFunc_seen, h]

/-- Parameters are made of what their fields show. -/
theorem paramsFrom (h : RendersSeen ctx room) (i : Nat) (fs : List Field) :
    Typings.paramsFrom ctx room i (fs.map Field.seen) = Typings.paramsFrom ctx room i fs := by
  induction fs generalizing i with
  | nil => rfl
  | cons f fs ih =>
    rw [List.map_cons, paramsFrom_cons, paramsFrom_cons, ih, TsParam.ofField_seen,
      show f.seen.type = f.type.seen from rfl, TypeExpr.deref_seen, h]

/-- Results are made of what their fields show. -/
theorem resultsOf (h : RendersSeen ctx room) (fs : List Field) :
    Typings.resultsOf ctx room (fs.map Field.seen) = Typings.resultsOf ctx room fs := by
  induction fs with
  | nil => rfl
  | cons f fs ih =>
    rw [List.map_cons, resultsOf_cons, resultsOf_cons, ih, show f.seen.type = f.type.seen from rfl, h]
    rfl

/-- One level more. -/
theorem succ (h : RendersSeen ctx room) : RendersSeen ctx (room + 1) := by
  intro slot x
  cases x with
  | pointer x => rw [TypeExpr.seen, TsType.ofExpr, TsType.ofExpr, TypeExpr.isFunc_seen, h]
  | variadic elt =>
    rw [TypeExpr.seen, TsType.ofExpr, TsType.ofExpr, TypeExpr.isNamed_seen, TypeExpr.isFunc_seen, h]
  | array elt length => rw [TypeExpr.seen, TsType.ofExpr, TsType.ofExpr, TypeExpr.isNamed_seen, h]
  | struct fields => rw [TypeExpr.seen_struct, TsType.ofExpr, TsType.ofExpr, h.structMembers]
  | interface methods => rw [TypeExpr.seen_interface, TsType.ofExpr, TsType.ofExpr, h.interfaceMembers]
  | paren x => rw [TypeExpr.seen, TsType.ofExpr, TsType.ofExpr, h]
  | binary x op y => rw [TypeExpr.seen, TsType.ofExpr, TsType.ofExpr, h, h]
  | func params results typeParams =>
    rw [TypeExpr.seen_func, TsType.ofExpr, TsType.ofExpr, h.paramsFrom, h.resultsOf, withoutError_seen]
  | unary op x => rw [TypeExpr.seen, TsType.ofExpr, TsType.ofExpr, h]
  | generic x args => rw [TypeExpr.seen_generic, TsType.ofExpr, TsType.ofExpr, h, h.typesOf]
  | _ => rfl

end RendersSeen

/-- A type is rendered by what it shows. By induction on the room. -/
theorem rendersSeen (ctx : Context) (room : Nat) : RendersSeen ctx room := by
  induction room with
  | zero =>
    intro slot x
    rw [TsType.ofExpr, TsType.ofExpr]
  | succ room ih => exact ih.succ

/-! ## Declarations -/

namespace TsDecl

/-- Embedded types are told and rendered by what they show. -/
theorem basesOf_seen (ctx : Context) (fields : List Field) :
    basesOf ctx (fields.map Field.seen) = basesOf ctx fields := by
  have visible : (fun f : Field => f.names.isEmpty && Name.isVisible f.type.visibleName) ∘ Field.seen =
      fun f => f.names.isEmpty && Name.isVisible f.type.visibleName := by
    funext f
    show (f.names.isEmpty && Name.isVisible f.type.seen.visibleName) = _
    rw [TypeExpr.visibleName_seen]
  rw [basesOf, basesOf, Field.visibleBases, Field.visibleBases, List.filter_map, visible, List.map_map,
    List.map_map, List.map_map]
  exact List.map_congr_left fun f _ => rendersSeen ctx ctx.room .base f.type

/-- A type specification is written by what it shows. -/
theorem ofTypeSpec?_seen (ctx : Context) (spec : TypeSpec) :
    ofTypeSpec? ctx spec.seen = ofTypeSpec? ctx spec := by
  obtain ⟨name, type, typeParams, doc, comment, isAlias⟩ := spec
  unfold ofTypeSpec? TypeSpec.seen
  dsimp only
  rw [Field.allNames_map_seen, docOf_plain, noteOf_plain]
  generalize ctx.within (Field.allNames typeParams) = ctx
  have renders := rendersSeen ctx ctx.room
  split
  · cases type with
    | struct fields =>
      rw [TypeExpr.seen_struct]
      dsimp only
      rw [basesOf_seen, renders.structMembers]
    | interface methods =>
      rw [TypeExpr.seen_interface]
      dsimp only
      rw [basesOf_seen, renders.interfaceMembers]
    | func params results typeParams =>
      have signature := renders .plain (.func params results typeParams)
      rw [TypeExpr.seen_func] at signature ⊢
      dsimp only
      rw [signature]
    | _ =>
      exact congrArg (fun rendered => some (synonym (docOf doc) name (Field.allNames typeParams)
        rendered (noteOf comment))) (renders .plain _)
  · rfl

theorem ofExpr_type_seen (ctx : Context) (room : Nat) (slot : Slot) (decl : FuncDecl) :
    TsType.ofExpr ctx room slot decl.seen.type = TsType.ofExpr ctx room slot decl.type := by
  have type : decl.seen.type = decl.type.seen := by
    rw [FuncDecl.type, FuncDecl.type, TypeExpr.seen_func]
    rfl
  rw [type]
  exact rendersSeen ctx room slot decl.type

/-- A method is written by what it shows; its receiver's tag is no part of that. -/
theorem ofMethod?_seen (ctx : Context) (decl : FuncDecl) (recv : Field) :
    ofMethod? ctx decl.seen recv.seen = ofMethod? ctx decl recv := by
  have typeParams : Field.allNames decl.seen.typeParams = Field.allNames decl.typeParams :=
    Field.allNames_map_seen decl.typeParams
  have doc : docOf decl.seen.doc = docOf decl.doc := docOf_plain decl.doc
  rw [ofMethod?, ofMethod?, Field.receiver_seen, typeParams, doc]
  dsimp only
  rw [ofExpr_type_seen]
  rfl

/-- A function is written by what it shows. -/
theorem ofFunction?_seen (ctx : Context) (decl : FuncDecl) :
    ofFunction? ctx decl.seen = ofFunction? ctx decl := by
  have typeParams : Field.allNames decl.seen.typeParams = Field.allNames decl.typeParams :=
    Field.allNames_map_seen decl.typeParams
  have doc : docOf decl.seen.doc = docOf decl.doc := docOf_plain decl.doc
  rw [ofFunction?, ofFunction?, typeParams, doc]
  dsimp only
  rw [ofExpr_type_seen]
  rfl

/-- A declaration is written by what it shows. -/
theorem ofDecl_seen (ctx : Context) (d : Decl) : ofDecl ctx d.seen = ofDecl ctx d := by
  cases d with
  | typeSpec spec => exact congrArg Except.ok (ofTypeSpec?_seen ctx spec)
  | func decl =>
    obtain ⟨name, params, results, typeParams, recv, doc⟩ := decl
    cases recv with
    | none => exact congrArg Except.ok (ofFunction?_seen ctx _)
    | some recv => exact congrArg Except.ok (ofMethod?_seen ctx _ recv)
  | unknown => rfl

/-- Declarations are rendered as what is seen of them. -/
theorem ofDecls_seen (ctx : Context) (ds : List Decl) : ofDecls ctx (ds.map Decl.seen) = ofDecls ctx ds := by
  induction ds with
  | nil => rfl
  | cons d ds ih => rw [List.map_cons, ofDecls, ofDecls, ofDecl_seen, ih]

end TsDecl

end Typings
