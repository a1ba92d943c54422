import Typings.Proofs.Comments.Rendered
import Typings.Proofs.Spelling.Grammar

/-!
# Declarations without comments

Taking the documentation and the comments out of declarations (`Decl.bare`) and then rendering them is
rendering them and then taking the comments out of what is rendered (`TsDecl.ofDecls_bare`): what a
type is written as never depends on what is said about its parts.
-/

namespace Typings

/-- The field without what is said about it. -/
def Field.bare (f : Field) : Field := { names := f.names, type := f.type.bare, tag := f.tag }

/-- The type specification without what is said about it and its parts. -/
def TypeSpec.bare (spec : TypeSpec) : TypeSpec :=
  { name := spec.name, type := spec.type.bare, typeParams := spec.typeParams.map Field.bare,
    isAlias := spec.isAlias }

/-- The function without what is said about it and its parts. -/
def FuncDecl.bare (decl : FuncDecl) : FuncDecl :=
  { name := decl.name, params := decl.params.map Field.bare, results := decl.results.map Field.bare,
    typeParams := decl.typeParams.map Field.bare, recv := decl.recv.map Field.bare }

/-- The declaration without documentation and comments, its own and those inside it. -/
def Decl.bare : Decl → Decl
  | .typeSpec spec => .typeSpec spec.bare
  | .func decl => .func decl.bare
  | .unknown => .unknown

/-! ## What stays of a type -/

theorem bareTypes_eq_map (xs : List TypeExpr) : bareTypes xs = xs.map TypeExpr.bare := by
  induction xs with
  | nil => rfl
  | cons x xs ih => rw [bareTypes, ih, List.map_cons]

theorem bareFields_eq_map (fs : List Field) : bareFields fs = fs.map Field.bare := by
  induction fs with
  | nil => rfl
  | cons f fs ih =>
    obtain ⟨names, type, doc, comment, tag⟩ := f
    rw [bareFields, ih, List.map_cons]
    rfl

namespace TypeExpr

theorem bare_func (params results typeParams : List Field) :
    (func params results typeParams).bare =
      .func (params.map Field.bare) (results.map Field.bare) (typeParams.map Field.bare) := by
  show func (bareFields params) (bareFields results) (bareFields typeParams) = _
  rw [bareFields_eq_map, bareFields_eq_map, bareFields_eq_map]

theorem bare_struct (fields : List Field) : (struct fields).bare = .struct (fields.map Field.bare) :=
  congrArg struct (bareFields_eq_map fields)

theorem bare_interface (methods : List Field) :
    (interface methods).bare = .interface (methods.map Field.bare) :=
  congrArg interface (bareFields_eq_map methods)

theorem bare_generic (x : TypeExpr) (args : List TypeExpr) :
    (generic x args).bare = .generic x.bare (args.map bare) :=
  congrArg (generic x.bare) (bareTypes_eq_map args)

/-- What shows of a type at its head. -/
theorem head_bare (x : TypeExpr) :
    x.bare.name? = x.name? ∧ x.bare.isFunc = x.isFunc ∧ x.bare.isPointer = x.isPointer ∧
      x.bare.isVariadic = x.isVariadic ∧ x.bare.deref = x.deref.bare ∧
      x.bare.unparen = x.unparen.bare := by
  cases x with
  | array elt length => cases length <;> exact ⟨rfl, rfl, rfl, rfl, rfl, rfl⟩
  | composite type elts => cases type <;> exact ⟨rfl, rfl, rfl, rfl, rfl, rfl⟩
  | _ => exact ⟨rfl, rfl, rfl, rfl, rfl, rfl⟩

@[simp] theorem name?_bare (x : TypeExpr) : x.bare.name? = x.name? := x.head_bare.1

@[simp] theorem isNamed_bare (name : String) (x : TypeExpr) : x.bare.isNamed name = x.isNamed name := by
  rw [isNamed, isNamed, name?_bare]

@[simp] theorem isFunc_bare (x : TypeExpr) : x.bare.isFunc = x.isFunc := x.head_bare.2.1

@[simp] theorem isPointer_bare (x : TypeExpr) : x.bare.isPointer = x.isPointer := x.head_bare.2.2.1

@[simp] theorem isVariadic_bare (x : TypeExpr) : x.bare.isVariadic = x.isVariadic :=
  x.head_bare.2.2.2.1

@[simp] theorem deref_bare (x : TypeExpr) : x.bare.deref = x.deref.bare := x.head_bare.2.2.2.2.1

@[simp] theorem unparen_bare (x : TypeExpr) : x.bare.unparen = x.unparen.bare := x.head_bare.2.2.2.2.2

@[simp] theorem visibleName_bare (x : TypeExpr) : x.bare.visibleName = x.visibleName := by
  rw [visibleName, visibleName, deref_bare]
  cases x.deref with
  | generic base args =>
    cases base with
    | array elt length => cases length <;> rfl
    | composite type elts => cases type <;> rfl
    | _ => rfl
  | array elt length => cases length <;> rfl
  | composite type elts => cases type <;> rfl
  | _ => rfl

@[simp] theorem qualifiedName_bare (x : TypeExpr) : x.bare.qualifiedName = x.qualifiedName := by
  fun_induction qualifiedName x with
  | case1 n => rfl
  | case2 x sel ih => rw [bare, qualifiedName, ih]
  | case3 x plain qualified =>
    cases x with
    | name n => exact absurd rfl (plain n)
    | selector x sel => exact absurd rfl (qualified x sel)
    | array elt length => cases length <;> rfl
    | composite type elts => cases type <;> rfl
    | _ => rfl

end TypeExpr

namespace Field

@[simp] theorem allNames_map_bare (fs : List Field) :
    allNames (fs.map Field.bare) = allNames fs := by
  rw [allNames, List.flatMap_map, allNames]
  rfl

@[simp] theorem receiver_bare (recv : Field) : recv.bare.receiver = recv.receiver := by
  have type : recv.bare.type = recv.type.bare := rfl
  rw [receiver, receiver, type, TypeExpr.deref_bare, TypeExpr.unparen_bare]
  cases recv.type.deref.unparen with
  | generic x args =>
    have names : TypeExpr.name? ∘ TypeExpr.bare = TypeExpr.name? := funext TypeExpr.name?_bare
    rw [TypeExpr.bare_generic]
    dsimp only
    rw [TypeExpr.name?_bare, List.filterMap_map, names]
  | array elt length => cases length <;> rfl
  | composite type elts => cases type <;> rfl
  | _ => rfl

theorem endsInError_bare (results : List Field) :
    endsInError (results.map Field.bare) = endsInError results := by
  rw [endsInError, endsInError, List.getLast?_map, Option.map_map]
  have same : (fun f : Field => f.type.isNamed "error") ∘ Field.bare =
      fun f => f.type.isNamed "error" := funext fun f => TypeExpr.isNamed_bare "error" f.type
  rw [same]

end Field

/-! ## What stays of a rendered type -/

namespace TsType

/-- No comment is written for a name. -/
theorem bare_ofName (ctx : Context) (name : String) : (ctx.ofName name).bare = ctx.ofName name := by
  unfold Context.ofName
  split
  · rfl
  · split <;> rfl

/-- No comment is written for a selector. -/
theorem bare_ofSelector (ctx : Context) (x : TypeExpr) (sel : String) :
    ctx.ofSelector x.bare sel = (ctx.ofSelector x sel).bare := by
  unfold Context.ofSelector
  rw [TypeExpr.qualifiedName_bare]
  split
  · rfl
  · split <;> rfl

theorem bare_parenIf (enclose : Bool) (x : TsType) : (parenIf enclose x).bare = parenIf enclose x.bare := by
  cases enclose <;> rfl

/-- What is put around a type for a pointer is put around it without comments. -/
theorem bare_pointerTo (slot : Slot) (isFunc : Bool) (x : TsType) :
    (pointerTo slot isFunc x).bare = pointerTo slot isFunc x.bare := by
  unfold pointerTo
  split
  · rw [bare_parenIf]
    exact congrArg (fun x => parenIf slot.enclosed (nullable x)) (bare_parenIf isFunc x)
  · rfl

theorem bare_ofResults (xs : List TsType) : (ofResults xs).bare = ofResults (xs.map bare) := by
  cases xs with
  | nil => rfl
  | cons x xs =>
    cases xs with
    | nil => rfl
    | cons y ys =>
      exact bare_tuple (x :: y :: ys)

/-- A function without comments has its parameters and its result without them. -/
theorem bare_ofFunc (slot : Slot) (params : List TsParam) (result : TsType) :
    (ofFunc slot params result).bare = ofFunc slot (params.map TsParam.bare) result.bare := by
  unfold ofFunc
  split
  · exact bare_arrow params result
  · exact bare_signature params result

end TsType

/-- The members of a field without comments are its members without comments. -/
theorem TsMember.ofField_bare (style : NameStyle) (f : Field) (optional colon : Bool) (type : TsType) :
    ofField style f.bare optional colon type.bare = (ofField style f optional colon type).map bare := by
  rw [ofField, ofField, List.map_map]
  rfl

/-- The parameters of a field without comments are its parameters without comments. -/
theorem TsParam.ofField_bare (i : Nat) (f : Field) (type : TsType) :
    ofField i f.bare type.bare = (ofField i f type).map bare := by
  rw [ofField, ofField, List.map_map, show f.bare.type = f.type.bare from rfl,
    TypeExpr.isVariadic_bare]
  rfl

/-- An error at the end is left out, whether comments are or not. -/
theorem map_withoutError (results : List Field) (rendered : List TsType) :
    (withoutError results rendered).map TsType.bare =
      withoutError (results.map Field.bare) (rendered.map TsType.bare) := by
  rw [withoutError, withoutError, Field.endsInError_bare]
  split
  · rw [List.map_dropLast]
  · rfl

/-! ## Types -/

/-- Every type with so much room is rendered without comments as it is with them, but for these. -/
def RenderedBare (ctx : Context) (room : Nat) : Prop :=
  ∀ slot x, TsType.ofExpr ctx room slot x.bare = (TsType.ofExpr ctx room slot x).bare

section

variable {ctx : Context} {room : Nat}

theorem typesOf_bare (h : RenderedBare ctx room) (xs : List TypeExpr) :
    typesOf ctx room (xs.map TypeExpr.bare) = (typesOf ctx room xs).map TsType.bare := by
  rw [typesOf_eq_map, typesOf_eq_map, List.map_map, List.map_map]
  exact List.map_congr_left fun x _ => h .part x

/-- The members of a struct without comments. -/
theorem structMembers_bare (h : RenderedBare ctx room) (fs : List Field) :
    structMembers ctx room (fs.map Field.bare) = (structMembers ctx room fs).map TsMember.bare := by
  induction fs with
  | nil => rfl
  | cons f fs ih =>
    rw [List.map_cons, structMembers_cons, structMembers_cons, List.map_append, ih,
      show f.bare.type = f.type.bare from rfl, TypeExpr.isPointer_bare, TypeExpr.deref_bare, h,
      TsMember.ofField_bare]

/-- The members of an interface without comments. -/
theorem interfaceMembers_bare (h : RenderedBare ctx room) (fs : List Field) :
    interfaceMembers ctx room (fs.map Field.bare) =
      (interfaceMembers ctx room fs).map TsMember.bare := by
  induction fs with
  | nil => rfl
  | cons f fs ih =>
    rw [List.map_cons, interfaceMembers_cons, interfaceMembers_cons, List.map_append, ih,
      show f.bare.type = f.type.bare from rfl, TypeExpr.isFunc_bare, h, TsMember.ofField_bare]

/-- The parameters of a function without comments. -/
theorem paramsFrom_bare (h : RenderedBare ctx room) (i : Nat) (fs : List Field) :
    paramsFrom ctx room i (fs.map Field.bare) = (paramsFrom ctx room i fs).map TsParam.bare := by
  induction fs generalizing i with
  | nil => rfl
  | cons f fs ih =>
    rw [List.map_cons, paramsFrom_cons, paramsFrom_cons, List.map_append, ih,
      show f.bare.type = f.type.bare from rfl, TypeExpr.deref_bare, h, TsParam.ofField_bare]

/-- The results of a function without comments. -/
theorem resultsOf_bare (h : RenderedBare ctx room) (fs : List Field) :
    resultsOf ctx room (fs.map Field.bare) = (resultsOf ctx room fs).map TsType.bare := by
  induction fs with
  | nil => rfl
  | cons f fs ih =>
    rw [List.map_cons, resultsOf_cons, resultsOf_cons, List.map_append, ih, List.map_replicate,
      show f.bare.type = f.type.bare from rfl, h]
    rfl

end

/-- Comments are not looked at when a type is rendered. -/
theorem renderedBare (ctx : Context) (room : Nat) : RenderedBare ctx room := by
  induction room with
  | zero => intro slot x; rw [TsType.ofExpr, TsType.ofExpr, TsType.bare.eq_def]
  | succ room ih =>
    intro slot x
    cases x with
    | pointer x =>
      rw [TypeExpr.bare, TsType.ofExpr, TsType.ofExpr, TypeExpr.isFunc_bare, ih, TsType.bare_pointerTo]
    | variadic elt =>
      rw [TypeExpr.bare, TsType.ofExpr, TsType.ofExpr, TypeExpr.isNamed_bare, TypeExpr.isFunc_bare, ih]
      split
      · rfl
      · rw [TsType.bare, TsType.bare_parenIf]
    | array elt length =>
      have same : ∃ length', (TypeExpr.array elt length).bare = .array elt.bare length' := by
        cases length with
        | none => exact ⟨none, rfl⟩
        | some size => exact ⟨some size.bare, rfl⟩
      obtain ⟨length', same⟩ := same
      rw [same, TsType.ofExpr, TsType.ofExpr, TypeExpr.isNamed_bare, ih]
      split <;> rw [TsType.bare]
    | struct fields =>
      rw [TypeExpr.bare_struct, TsType.ofExpr, TsType.ofExpr, structMembers_bare ih, TsType.bare_object]
    | interface methods =>
      rw [TypeExpr.bare_interface, TsType.ofExpr, TsType.ofExpr, interfaceMembers_bare ih,
        TsType.bare_object]
    | name name => rw [TypeExpr.bare, TsType.ofExpr, TsType.bare_ofName]
    | selector x sel => rw [TypeExpr.bare, TsType.ofExpr, TsType.ofExpr, TsType.bare_ofSelector]
    | paren x => rw [TypeExpr.bare, TsType.ofExpr, TsType.ofExpr, ih, TsType.bare]
    | binary x op y => rw [TypeExpr.bare, TsType.ofExpr, TsType.ofExpr, ih, ih, TsType.bare]
    | func params results typeParams =>
      rw [TypeExpr.bare_func, TsType.ofExpr, TsType.ofExpr, paramsFrom_bare ih, resultsOf_bare ih,
        TsType.bare_ofFunc, TsType.bare_ofResults, map_withoutError]
    | unary op x =>
      rw [TypeExpr.bare, TsType.ofExpr, TsType.ofExpr, ih]
      split
      · rfl
      · rfl
    | generic x args =>
      rw [TypeExpr.bare_generic, TsType.ofExpr, TsType.ofExpr, ih, typesOf_bare ih, TsType.bare_generic]
    | composite type elts => cases type <;> rfl
    | _ => rfl

/-! ## Declarations -/

/-- The embedded types are rendered without comments. -/
theorem TsDecl.basesOf_bare (ctx : Context) (fields : List Field) :
    basesOf ctx (fields.map Field.bare) = (basesOf ctx fields).map TsType.bare := by
  have visible : (fun f : Field => f.names.isEmpty && Name.isVisible f.type.visibleName) ∘ Field.bare =
      fun f => f.names.isEmpty && Name.isVisible f.type.visibleName := by
    funext f
    show (f.names.isEmpty && Name.isVisible f.type.bare.visibleName) = _
    rw [TypeExpr.visibleName_bare]
  rw [basesOf, basesOf, Field.visibleBases, Field.visibleBases, List.filter_map, visible, List.map_map,
    List.map_map, List.map_map, List.map_map]
  exact List.map_congr_left fun f _ => renderedBare ctx ctx.room .base f.type

/-- A type specification without comments is written as its declaration without comments. -/
theorem TsDecl.ofTypeSpec?_bare (ctx : Context) (spec : TypeSpec) :
    ofTypeSpec? ctx spec.bare = (ofTypeSpec? ctx spec).map TsDecl.bare := by
  obtain ⟨name, type, typeParams, doc, comment, isAlias⟩ := spec
  unfold ofTypeSpec? TypeSpec.bare
  dsimp only
  rw [Field.allNames_map_bare]
  generalize ctx.within (Field.allNames typeParams) = ctx
  have alike := congrArg
    (fun type => some (TsDecl.synonym [] name (Field.allNames typeParams) type ""))
    (renderedBare ctx ctx.room .plain type)
  split
  · rw [Option.map_some]
    cases type with
    | struct fields =>
      rw [TypeExpr.bare_struct]
      dsimp only
      rw [basesOf_bare, structMembers_bare (renderedBare ctx ctx.room), TsDecl.bare_interface]
      rfl
    | interface methods =>
      rw [TypeExpr.bare_interface]
      dsimp only
      rw [basesOf_bare, interfaceMembers_bare (renderedBare ctx ctx.room), TsDecl.bare_interface]
      rfl
    | func params results typeParams =>
      have signature := renderedBare ctx ctx.room .plain (.func params results typeParams)
      rw [TypeExpr.bare_func] at signature ⊢
      dsimp only
      rw [signature]
      rfl
    | array _ inner | composite inner _ => cases inner <;> exact alike
    | _ => exact alike
  · rfl

theorem FuncDecl.type_bare (decl : FuncDecl) : decl.bare.type = decl.type.bare := by
  rw [FuncDecl.type, FuncDecl.type, TypeExpr.bare_func]
  rfl

/-- A method without comments is written as its declaration without comments. -/
theorem TsDecl.ofMethod?_bare (ctx : Context) (decl : FuncDecl) (recv : Field) :
    ofMethod? ctx decl.bare recv.bare = (ofMethod? ctx decl recv).map TsDecl.bare := by
  have name : decl.bare.name = decl.name := rfl
  have typeParams : decl.bare.typeParams = decl.typeParams.map Field.bare := rfl
  rw [ofMethod?, ofMethod?, Field.receiver_bare, name, typeParams, FuncDecl.type_bare,
    Field.allNames_map_bare]
  dsimp only
  split
  · rw [renderedBare]
    rfl
  · rfl

/-- A function without comments is written as its declaration without comments. -/
theorem TsDecl.ofFunction?_bare (ctx : Context) (decl : FuncDecl) :
    ofFunction? ctx decl.bare = (ofFunction? ctx decl).map TsDecl.bare := by
  have name : decl.bare.name = decl.name := rfl
  have typeParams : decl.bare.typeParams = decl.typeParams.map Field.bare := rfl
  rw [ofFunction?, ofFunction?, name, typeParams, FuncDecl.type_bare, Field.allNames_map_bare]
  dsimp only
  split
  · rw [renderedBare]
    rfl
  · rfl

/-- Taking the comments out before a declaration is rendered or after comes to the same. -/
theorem TsDecl.ofDecl_bare (ctx : Context) (d : Decl) :
    ofDecl ctx d.bare = (ofDecl ctx d).map (Option.map TsDecl.bare) := by
  cases d with
  | typeSpec spec => exact congrArg Except.ok (ofTypeSpec?_bare ctx spec)
  | func decl =>
    obtain ⟨name, params, results, typeParams, recv, doc⟩ := decl
    cases recv with
    | none => exact congrArg Except.ok (ofFunction?_bare ctx _)
    | some recv => exact congrArg Except.ok (ofMethod?_bare ctx _ recv)
  | unknown => rfl

/-- Declarations without comments are rendered as they are with comments, but for these. -/
theorem TsDecl.ofDecls_bare (ctx : Context) (ds : List Decl) :
    ofDecls ctx (ds.map Decl.bare) = (ofDecls ctx ds).map (List.map TsDecl.bare) := by
  induction ds with
  | nil => rfl
  | cons d ds ih =>
    rw [List.map_cons, ofDecls, ofDecls, ofDecl_bare, ih]
    cases ofDecl ctx d with
    | error e => rfl
    | ok first =>
      cases ofDecls ctx ds with
      | error e => rfl
      | ok rest => cases first <;> rfl

end Typings
