import Typings.Session

/-!
# The public surface of a declaration

What is written for a declaration depends on its public surface alone: on visible names, on the types
of what they name, and on how many results a function has. `Decl.erase` takes everything else away,
or puts something else in its place: hidden members, what is embedded in bodies inside types, array
lengths, the types of dictionaries and channels, tags, constraints, the receiver's name, the mark of
an alias, and the names of results. The rendering does not change (`Session.decl_erase`).
-/

namespace Typings

/-- What stands in the place of hidden parts: a type for those that are types, and names for results,
given the place of the result and the names it had. There are as many results as before. -/
structure Erasure where
  filler : TypeExpr
  resultNames : List Nat → List String → List String
  count : ∀ place names, max (resultNames place names).length 1 = max names.length 1

namespace Erasure

variable (e : Erasure)

/-- Type parameters without their constraints. -/
def typeParams (params : List Field) : List Field :=
  params.map fun f => { f with type := e.filler, tag := none }

end Erasure

mutual

/-- A type without its hidden parts. Its place is told by the numbers of the parts that it is inside
of. -/
def TypeExpr.erase (e : Erasure) (place : List Nat) : TypeExpr → TypeExpr
  | .pointer x => .pointer (x.erase e place)
  | .variadic elt => .variadic (elt.erase e place)
  | .array elt _ => .array (elt.erase e place) none
  | .map _ _ => .map e.filler e.filler
  | .channel dir _ => .channel dir e.filler
  | .func params results typeParams =>
    .func (erasedParams e (0 :: place) 0 params) (erasedResults e (1 :: place) 0 results)
      (e.typeParams typeParams)
  | .struct fields => .struct (erasedMembers e place 0 fields)
  | .interface methods => .interface (erasedMembers e place 0 methods)
  | .generic x args => .generic (x.erase e (0 :: place)) (erasedTypes e place 1 args)
  | .paren x => .paren (x.erase e place)
  | .binary x op y => .binary (x.erase e (0 :: place)) op (y.erase e (1 :: place))
  | .unary op x => .unary op (x.erase e place)
  | x => x

/-- The types from a number on. -/
def erasedTypes (e : Erasure) (place : List Nat) (i : Nat) : List TypeExpr → List TypeExpr
  | [] => []
  | x :: xs => x.erase e (i :: place) :: erasedTypes e place (i + 1) xs

/-- The members of a body inside a type, from a number on: those with visible names, and of their
names the visible ones. -/
def erasedMembers (e : Erasure) (place : List Nat) (i : Nat) : List Field → List Field
  | [] => []
  | ⟨names, type, doc, comment, _⟩ :: fields =>
    match names.filter Name.isVisible with
    | [] => erasedMembers e place (i + 1) fields
    | visible =>
      ⟨visible, type.erase e (i :: place), doc, comment, none⟩ :: erasedMembers e place (i + 1) fields

/-- The parameters from a number on. -/
def erasedParams (e : Erasure) (place : List Nat) (i : Nat) : List Field → List Field
  | [] => []
  | ⟨names, type, doc, comment, _⟩ :: fields =>
    ⟨names, type.erase e (i :: place), doc, comment, none⟩ :: erasedParams e place (i + 1) fields

/-- The results from a number on, under other names. -/
def erasedResults (e : Erasure) (place : List Nat) (i : Nat) : List Field → List Field
  | [] => []
  | ⟨names, type, doc, comment, _⟩ :: fields =>
    ⟨e.resultNames (i :: place) names, type.erase e (i :: place), doc, comment, none⟩
      :: erasedResults e place (i + 1) fields

end

/-- The members of a declared body, from a number on: besides those with visible names, the visible
types that are embedded. -/
def erasedBody (e : Erasure) (i : Nat) : List Field → List Field
  | [] => []
  | f :: fields =>
    if f.names.isEmpty && Name.isVisible f.type.visibleName then
      { f with type := f.type.erase e [i], tag := none } :: erasedBody e (i + 1) fields
    else erasedMembers e [] i [f] ++ erasedBody e (i + 1) fields

/-- The type of a type specification: a body keeps the visible types that are embedded in it. -/
def TypeExpr.eraseDeclared (e : Erasure) : TypeExpr → TypeExpr
  | .struct fields => .struct (erasedBody e 0 fields)
  | .interface methods => .interface (erasedBody e 0 methods)
  | x => x.erase e []

/-- A type specification without its hidden parts. -/
def TypeSpec.erase (e : Erasure) (spec : TypeSpec) : TypeSpec :=
  { spec with
    type := spec.type.eraseDeclared e
    typeParams := e.typeParams spec.typeParams
    isAlias := false }

/-- A function without its hidden parts; a receiver has no name. -/
def FuncDecl.erase (e : Erasure) (decl : FuncDecl) : FuncDecl :=
  { decl with
    params := erasedParams e [0] 0 decl.params
    results := erasedResults e [1] 0 decl.results
    typeParams := e.typeParams decl.typeParams
    recv := decl.recv.map fun recv => { recv with names := [], type := recv.type.erase e [2], tag := none } }

/-- A declaration without its hidden parts. -/
def Decl.erase (e : Erasure) : Decl → Decl
  | .typeSpec spec => .typeSpec (spec.erase e)
  | .func decl => .func (decl.erase e)
  | .unknown => .unknown

variable (e : Erasure) (place : List Nat)

/-! ## What is left of a type -/

namespace TypeExpr

@[simp] theorem name?_erase (x : TypeExpr) : (x.erase e place).name? = x.name? := by
  cases x <;> rfl

@[simp] theorem isNamed_erase (name : String) (x : TypeExpr) :
    (x.erase e place).isNamed name = x.isNamed name := by
  rw [isNamed, isNamed, name?_erase]

@[simp] theorem isFunc_erase (x : TypeExpr) : (x.erase e place).isFunc = x.isFunc := by
  cases x <;> rfl

@[simp] theorem isPointer_erase (x : TypeExpr) : (x.erase e place).isPointer = x.isPointer := by
  cases x <;> rfl

@[simp] theorem isVariadic_erase (x : TypeExpr) : (x.erase e place).isVariadic = x.isVariadic := by
  cases x <;> rfl

@[simp] theorem deref_erase (x : TypeExpr) : (x.erase e place).deref = x.deref.erase e place := by
  cases x <;> rfl

@[simp] theorem unparen_erase (x : TypeExpr) :
    (x.erase e place).unparen = x.unparen.erase e place := by
  cases x <;> rfl

/-- An embedded type stays visible. -/
@[simp] theorem visibleName_erase (x : TypeExpr) :
    (x.erase e place).visibleName = x.visibleName := by
  rw [visibleName, visibleName, deref_erase]
  cases x.deref with
  | generic base args => cases base <;> rfl
  | _ => rfl

end TypeExpr

theorem filterMap_name?_erasedTypes (i : Nat) (xs : List TypeExpr) :
    (erasedTypes e place i xs).filterMap TypeExpr.name? = xs.filterMap TypeExpr.name? := by
  induction xs generalizing i with
  | nil => rfl
  | cons x xs ih =>
    rw [erasedTypes, List.filterMap_cons, List.filterMap_cons, TypeExpr.name?_erase, ih]

@[simp] theorem allNames_typeParams (params : List Field) :
    Field.allNames (e.typeParams params) = Field.allNames params := by
  rw [Field.allNames, Erasure.typeParams, List.flatMap_map, Field.allNames]

/-! ## Types are rendered alike -/

/-- Every type with so much room is rendered without its hidden parts as it is with them. -/
def RenderedAlike (e : Erasure) (ctx : Context) (room : Nat) : Prop :=
  ∀ slot place x, TsType.ofExpr ctx room slot (x.erase e place) = .ofExpr ctx room slot x

section Lists

variable {e : Erasure} {place : List Nat} {ctx : Context} {room : Nat}

theorem typesOf_erased (alike : RenderedAlike e ctx room) (i : Nat) (xs : List TypeExpr) :
    typesOf ctx room (erasedTypes e place i xs) = typesOf ctx room xs := by
  induction xs generalizing i with
  | nil => rfl
  | cons x xs ih => rw [erasedTypes, typesOf, typesOf, alike, ih]

/-- A field without visible names gives no members. -/
theorem TsMember.ofField_eq_nil {style : NameStyle} {f : Field} {optional colon : Bool}
    {type : TsType} (hidden : f.names.filter Name.isVisible = []) :
    TsMember.ofField style f optional colon type = [] := by
  rw [TsMember.ofField, hidden, List.map_nil]

/-- A field gives its members by its visible names. -/
theorem TsMember.ofField_visible (style : NameStyle) (names : List String) (x y : TypeExpr)
    (doc comment : Option CommentGroup) (tag tag' : Option String) (optional colon : Bool)
    (type : TsType) :
    TsMember.ofField style ⟨names.filter Name.isVisible, x, doc, comment, tag⟩ optional colon type =
      TsMember.ofField style ⟨names, y, doc, comment, tag'⟩ optional colon type := by
  simp only [TsMember.ofField, List.filter_filter, Bool.and_self]

theorem structMembers_erased (alike : RenderedAlike e ctx room) (i : Nat) (fields : List Field) :
    structMembers ctx room (erasedMembers e place i fields) = structMembers ctx room fields := by
  induction fields generalizing i with
  | nil => rfl
  | cons f fields ih =>
    obtain ⟨names, type, doc, comment, tag⟩ := f
    rw [erasedMembers, structMembers_cons]
    split
    · next hidden => rw [TsMember.ofField_eq_nil hidden, ih, List.nil_append]
    · rw [structMembers_cons, ih, TypeExpr.isPointer_erase, TypeExpr.deref_erase, alike,
        TsMember.ofField_visible]

theorem interfaceMembers_erased (alike : RenderedAlike e ctx room) (i : Nat)
    (methods : List Field) :
    interfaceMembers ctx room (erasedMembers e place i methods) =
      interfaceMembers ctx room methods := by
  induction methods generalizing i with
  | nil => rfl
  | cons f methods ih =>
    obtain ⟨names, type, doc, comment, tag⟩ := f
    rw [erasedMembers, interfaceMembers_cons]
    split
    · next hidden => rw [TsMember.ofField_eq_nil hidden, ih, List.nil_append]
    · rw [interfaceMembers_cons, ih, TypeExpr.isFunc_erase, alike, TsMember.ofField_visible]

theorem paramsFrom_erased (alike : RenderedAlike e ctx room) (i j : Nat) (params : List Field) :
    paramsFrom ctx room j (erasedParams e place i params) = paramsFrom ctx room j params := by
  induction params generalizing i j with
  | nil => rfl
  | cons f params ih =>
    obtain ⟨names, type, doc, comment, tag⟩ := f
    rw [erasedParams, paramsFrom_cons, paramsFrom_cons, ih, TypeExpr.deref_erase, alike,
      TsParam.ofField, TsParam.ofField, TypeExpr.isVariadic_erase]

theorem resultsOf_erased (alike : RenderedAlike e ctx room) (i : Nat) (results : List Field) :
    resultsOf ctx room (erasedResults e place i results) = resultsOf ctx room results := by
  induction results generalizing i with
  | nil => rfl
  | cons f results ih =>
    obtain ⟨names, type, doc, comment, tag⟩ := f
    rw [erasedResults, resultsOf_cons, resultsOf_cons, ih, e.count, alike]

end Lists

/-- The results still end in an error, if they did. -/
theorem endsInError_erased (i : Nat) (results : List Field) :
    endsInError (erasedResults e place i results) = endsInError results := by
  have last : (erasedResults e place i results).getLast?.map (fun f => f.type.isNamed "error") =
      results.getLast?.map fun f => f.type.isNamed "error" := by
    induction results generalizing i with
    | nil => rfl
    | cons f results ih =>
      obtain ⟨names, type, doc, comment, tag⟩ := f
      rw [erasedResults]
      cases results with
      | nil => simp [erasedResults]
      | cons g results =>
        obtain ⟨names', type', doc', comment', tag'⟩ := g
        have later := ih (i + 1)
        rw [erasedResults] at later ⊢
        rw [List.getLast?_cons_cons, List.getLast?_cons_cons, later]
  rw [endsInError, endsInError, last]

/-- A type is rendered alike without its hidden parts: those are never looked at, and they take no
room from the others. -/
theorem renderedAlike (ctx : Context) (room : Nat) : RenderedAlike e ctx room := by
  induction room with
  | zero => intro slot place x; rw [TsType.ofExpr, TsType.ofExpr]
  | succ room alike =>
    intro slot place x
    cases x with
    | pointer x =>
      rw [TypeExpr.erase, TsType.ofExpr, TsType.ofExpr, TypeExpr.isFunc_erase, alike]
    | variadic elt =>
      rw [TypeExpr.erase, TsType.ofExpr, TsType.ofExpr, TypeExpr.isNamed_erase,
        TypeExpr.isFunc_erase, alike]
    | array elt length =>
      rw [TypeExpr.erase, TsType.ofExpr, TsType.ofExpr, TypeExpr.isNamed_erase, alike]
    | struct fields =>
      rw [TypeExpr.erase, TsType.ofExpr, TsType.ofExpr, structMembers_erased alike]
    | interface methods =>
      rw [TypeExpr.erase, TsType.ofExpr, TsType.ofExpr, interfaceMembers_erased alike]
    | paren x => rw [TypeExpr.erase, TsType.ofExpr, TsType.ofExpr, alike]
    | binary x op y => rw [TypeExpr.erase, TsType.ofExpr, TsType.ofExpr, alike, alike]
    | func params results typeParams =>
      rw [TypeExpr.erase, TsType.ofExpr, TsType.ofExpr, paramsFrom_erased alike, withoutError,
        withoutError, endsInError_erased, resultsOf_erased alike]
    | unary op x => rw [TypeExpr.erase, TsType.ofExpr, TsType.ofExpr, alike]
    | generic x args =>
      rw [TypeExpr.erase, TsType.ofExpr, TsType.ofExpr, alike, typesOf_erased alike]
    | _ => rfl

/-! ## Declarations are rendered alike -/

/-- A field of a body is embedded and visible. -/
def Field.isVisibleBase (f : Field) : Bool :=
  f.names.isEmpty && Name.isVisible f.type.visibleName

theorem TsDecl.basesOf_cons (ctx : Context) (f : Field) (fields : List Field) :
    basesOf ctx (f :: fields) =
      (if f.isVisibleBase then [.ofExpr ctx ctx.room .base f.type] else []) ++ basesOf ctx fields := by
  unfold basesOf Field.visibleBases
  rw [List.filter_cons]
  change List.map _ (List.map _ (if f.isVisibleBase then _ else _)) = _
  cases f.isVisibleBase <;> rfl

theorem TsDecl.basesOf_append (ctx : Context) (fs gs : List Field) :
    basesOf ctx (fs ++ gs) = basesOf ctx fs ++ basesOf ctx gs := by
  simp only [basesOf, Field.visibleBases, List.filter_append, List.map_append]

section Body

variable {e : Erasure} {ctx : Context}

/-- What is left of a member is no embedded type. -/
theorem basesOf_erasedMembers (i : Nat) (fields : List Field) :
    TsDecl.basesOf ctx (erasedMembers e place i fields) = [] := by
  induction fields generalizing i with
  | nil => rfl
  | cons f fields ih =>
    obtain ⟨names, type, doc, comment, tag⟩ := f
    rw [erasedMembers]
    split
    · exact ih _
    · next some =>
      rw [TsDecl.basesOf_cons, ih, List.append_nil, Field.isVisibleBase]
      dsimp only
      rw [List.isEmpty_eq_false_iff.2 some]
      rfl

/-- The same types are embedded and visible, and they are rendered alike. -/
theorem basesOf_erasedBody (i : Nat) (fields : List Field) :
    TsDecl.basesOf ctx (erasedBody e i fields) = TsDecl.basesOf ctx fields := by
  induction fields generalizing i with
  | nil => rfl
  | cons f fields ih =>
    rw [erasedBody, TsDecl.basesOf_cons]
    change TsDecl.basesOf ctx (if f.isVisibleBase then _ else _) = _
    cases base : f.isVisibleBase with
    | true =>
      rw [if_pos rfl, if_pos rfl, TsDecl.basesOf_cons, ih, Field.isVisibleBase]
      dsimp only
      rw [TypeExpr.visibleName_erase]
      change (if f.isVisibleBase then _ else _) ++ _ = _
      rw [base, if_pos rfl, renderedAlike]
    | false =>
      rw [if_neg Bool.false_ne_true, if_neg Bool.false_ne_true, TsDecl.basesOf_append,
        basesOf_erasedMembers, ih]

/-- A rule that gives members field by field gives the same for what is left of a body. -/
theorem members_erasedBody {members : List Field → List TsMember}
    (append : ∀ fs gs, members (fs ++ gs) = members fs ++ members gs)
    (unnamed : ∀ f, f.names = [] → members [f] = [])
    (erased : ∀ i fs, members (erasedMembers e [] i fs) = members fs) (i : Nat)
    (fields : List Field) : members (erasedBody e i fields) = members fields := by
  induction fields generalizing i with
  | nil => rfl
  | cons f fields ih =>
    have apart : ∀ g gs, members (g :: gs) = members [g] ++ members gs := fun g gs => append [g] gs
    rw [erasedBody, apart f]
    split
    · next base =>
      obtain ⟨none, _⟩ := Bool.and_eq_true_iff.1 base
      have names : f.names = [] := List.isEmpty_iff.1 none
      have left := unnamed { f with type := f.type.erase e [i], tag := .none } names
      rw [apart, ih, left, unnamed f names]
    · rw [append, ih, erased]

theorem structMembers_append (ctx : Context) (room : Nat) (fs gs : List Field) :
    structMembers ctx room (fs ++ gs) = structMembers ctx room fs ++ structMembers ctx room gs := by
  induction fs with
  | nil => rfl
  | cons f fs ih =>
    rw [List.cons_append, structMembers_cons, structMembers_cons, ih, List.append_assoc]

theorem interfaceMembers_append (ctx : Context) (room : Nat) (fs gs : List Field) :
    interfaceMembers ctx room (fs ++ gs) =
      interfaceMembers ctx room fs ++ interfaceMembers ctx room gs := by
  induction fs with
  | nil => rfl
  | cons f fs ih =>
    rw [List.cons_append, interfaceMembers_cons, interfaceMembers_cons, ih, List.append_assoc]

theorem structMembers_erasedBody (room i : Nat) (fields : List Field) :
    structMembers ctx room (erasedBody e i fields) = structMembers ctx room fields := by
  refine members_erasedBody (structMembers_append ctx room) (fun f unnamed => ?_)
    (structMembers_erased (renderedAlike e ctx room)) i fields
  rw [structMembers_cons, TsMember.ofField_eq_nil (by rw [unnamed, List.filter_nil])]
  rfl

theorem interfaceMembers_erasedBody (room i : Nat) (methods : List Field) :
    interfaceMembers ctx room (erasedBody e i methods) = interfaceMembers ctx room methods := by
  refine members_erasedBody (interfaceMembers_append ctx room) (fun f unnamed => ?_)
    (interfaceMembers_erased (renderedAlike e ctx room)) i methods
  rw [interfaceMembers_cons, TsMember.ofField_eq_nil (by rw [unnamed, List.filter_nil])]
  rfl

end Body

theorem TsDecl.ofTypeSpec?_erase (ctx : Context) (spec : TypeSpec) :
    ofTypeSpec? ctx (spec.erase e) = ofTypeSpec? ctx spec := by
  obtain ⟨name, type, typeParams, doc, comment, isAlias⟩ := spec
  unfold ofTypeSpec? TypeSpec.erase
  dsimp only
  rw [allNames_typeParams]
  generalize ctx.within (Field.allNames typeParams) = ctx
  have alike := renderedAlike e ctx ctx.room .plain [] type
  cases type with
  | struct fields =>
    dsimp only [TypeExpr.eraseDeclared]
    rw [basesOf_erasedBody, structMembers_erasedBody]
  | interface methods =>
    dsimp only [TypeExpr.eraseDeclared]
    rw [basesOf_erasedBody, interfaceMembers_erasedBody]
  | name | literal | counted | selector | call | composite | unknown => rfl
  | _ =>
    dsimp only [TypeExpr.eraseDeclared, TypeExpr.erase] at alike ⊢
    rw [alike]

/-- The receiver's type is told by its own names, which are kept. -/
theorem Field.receiver_erase (recv : Field) :
    Field.receiver { recv with names := [], type := recv.type.erase e place, tag := none } =
      recv.receiver := by
  unfold receiver
  dsimp only
  rw [TypeExpr.deref_erase, TypeExpr.unparen_erase]
  cases recv.type.deref.unparen with
  | generic x args =>
    dsimp only [TypeExpr.erase]
    rw [TypeExpr.name?_erase, filterMap_name?_erasedTypes]
  | _ => rfl

theorem FuncDecl.ofExpr_type_erase (ctx : Context) (room : Nat) (decl : FuncDecl) :
    TsType.ofExpr ctx room .plain (decl.erase e).type = .ofExpr ctx room .plain decl.type :=
  renderedAlike e ctx room .plain [] decl.type

theorem TsDecl.ofFunction?_erase (ctx : Context) (decl : FuncDecl) :
    ofFunction? ctx (decl.erase e) = ofFunction? ctx decl := by
  have names : Field.allNames (decl.erase e).typeParams = Field.allNames decl.typeParams :=
    allNames_typeParams e decl.typeParams
  simp only [ofFunction?, names, FuncDecl.ofExpr_type_erase]
  rfl

theorem TsDecl.ofMethod?_erase (ctx : Context) (decl : FuncDecl) (recv : Field) :
    ofMethod? ctx (decl.erase e)
        { recv with names := [], type := recv.type.erase e place, tag := none } =
      ofMethod? ctx decl recv := by
  have names : Field.allNames (decl.erase e).typeParams = Field.allNames decl.typeParams :=
    allNames_typeParams e decl.typeParams
  simp only [ofMethod?, names, FuncDecl.ofExpr_type_erase, Field.receiver_erase]
  rfl

/-- What is written for a declaration, as a tree, does not depend on its hidden parts. -/
theorem TsDecl.ofDecl_erase (ctx : Context) (d : Decl) : ofDecl ctx (d.erase e) = ofDecl ctx d := by
  cases d with
  | typeSpec spec => exact congrArg Except.ok (ofTypeSpec?_erase e ctx spec)
  | func decl =>
    obtain ⟨name, params, results, typeParams, recv, doc⟩ := decl
    cases recv with
    | none => exact congrArg Except.ok (ofFunction?_erase e ctx _)
    | some recv => exact congrArg Except.ok (ofMethod?_erase e [2] ctx _ recv)
  | unknown => rfl

/-- The text of a declaration, its unknown names and its warnings do not depend on its hidden
parts. -/
theorem Session.decl_erase (config : Config) (d : Decl) :
    (Session.ofConfig config).decl (d.erase e) = (Session.ofConfig config).decl d := by
  unfold Session.decl
  rw [TsDecl.ofDecl_erase]

/-- Hidden types become `int`, and all results are called `_`. -/
def Erasure.underscored : Erasure where
  filler := .name "int"
  resultNames _ names := List.replicate (max names.length 1) "_"
  count _ names := by simp

/-- What is left of a generic struct with a hidden name, embedded types in and inside of it, a dictionary,
a length, a channel, a tag and named results. -/
theorem Session.decl_erase_box :
    let box (params : List Field) (fields : List Field) : Decl :=
      .typeSpec { name := "Box", typeParams := params, type := .struct fields }
    let d := box [{ names := ["T"], type := .name "comparable" }]
      [{ names := [], type := .name "base" },
       { names := [], type := .pointer (.name "Base") },
       { names := ["X", "y"], type := .map (.name "string") (.name "T"), tag := some "x" },
       { names := ["z"], type := .channel .send (.name "T") },
       { names := ["F"],
         type := .func [{ names := ["a"], type := .array (.name "T") (some (.name "n")) }]
           [{ names := ["n", "m"], type := .name "T" }, { names := [], type := .name "error" }] [] },
       { names := ["I"],
         type := .struct [{ names := [], type := .name "Base" },
           { names := ["v", "W"], type := .channel .both (.name "T") }] }]
    let left := box [{ names := ["T"], type := .name "int" }]
      [{ names := [], type := .pointer (.name "Base") },
       { names := ["X"], type := .map (.name "int") (.name "int") },
       { names := ["F"],
         type := .func [{ names := ["a"], type := .array (.name "T") none }]
           [{ names := ["_", "_"], type := .name "T" }, { names := ["_"], type := .name "error" }] [] },
       { names := ["I"],
         type := .struct [{ names := ["W"], type := .channel .both (.name "int") }] }]
    d.erase .underscored = left ∧ (ofConfig {}).decl left = (ofConfig {}).decl d := by
  intro box d left
  have erased : d.erase .underscored = left := by rfl
  exact ⟨erased, erased ▸ decl_erase .underscored {} d⟩

end Typings
