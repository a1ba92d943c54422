import Typings.Proofs.Filled.Types
import Typings.Rendering

/-!
# Rendering with texts of code points

Mappings whose texts have characters filled in for their surrogates (`Mappings.Filled`) render a type as a
tree that has these characters filled in (`rendersFilled`), and so they do declarations and files: the text
of a file is one text of code points with characters filled in, and what is noted is the same however that
is done (`Rendering.exists_filled`).
-/

namespace Typings

/-- For each key there is one text with characters filled in for its surrogates, or none. -/
def Mappings.Filled (among : List Surrogate) (m : StandIn → Mappings) : Prop :=
  ∀ key, (∀ standIn, (m standIn).find? key = none) ∨
    ∃ text, IsFilled among text ∧ ∀ standIn, (m standIn).find? key = some (text standIn)

/-- The options with other mappings. -/
def Config.mapped (config : Config) (m : Mappings) : Config := { config with mappings := m }

/-- The context with other mappings. -/
def Context.mapped (ctx : Context) (m : Mappings) : Context :=
  { ctx with config := ctx.config.mapped m }

section

variable {among : List Surrogate} {m : StandIn → Mappings}

/-- A name of a package is mapped with every stand-in, to one text that is filled in, or with none. -/
theorem Mappings.Filled.findQualified? (h : Filled among m) (package name : String) :
    (∀ standIn, (m standIn).findQualified? package name = none) ∨
      ∃ text, IsFilled among text ∧
        ∀ standIn, (m standIn).findQualified? package name = some (text standIn) := by
  unfold Mappings.findQualified?
  rcases h (package ++ "." ++ name) with none | ⟨text, fills, found⟩
  · rcases h (package ++ ".*") with none' | ⟨text, fills, found⟩
    · exact .inl fun standIn => by rw [none, none', Option.or_none]
    · exact .inr ⟨text, fills, fun standIn => by rw [none, found, Option.none_or]⟩
  · exact .inr ⟨text, fills, fun standIn => by rw [found, Option.some_or]⟩

/-! ## Types -/

/-- A name that is no type parameter is looked up, in the mappings first. -/
theorem Context.ofName_of_outside {ctx : Context} {name : String}
    (outside : ¬ctx.typeParams.contains name = true) :
    ctx.ofName name =
      ((ctx.config.mappings.find? name).or (builtin? name)).elim (.unresolved name) .verbatim := by
  rw [ofName, if_neg outside]
  cases (ctx.config.mappings.find? name).or (builtin? name) <;> rfl

/-- A name of a package is looked up in the mappings only. -/
theorem Context.ofSelector_of_named {ctx : Context} {qualifier : TypeExpr} {sel : String}
    (named : qualifier.qualifiedName ≠ "") :
    ctx.ofSelector qualifier sel =
      (ctx.config.mappings.findQualified? qualifier.qualifiedName sel).elim
        (.unresolved (qualifier.qualifiedName ++ "." ++ sel)) .verbatim := by
  rw [ofSelector, if_neg named]
  cases ctx.config.mappings.findQualified? qualifier.qualifiedName sel <;> rfl

namespace TsType.Filled

variable {x : StandIn → TsType}

/-- A word that nothing is filled into. -/
theorem word (text : String) : Filled among fun _ => .verbatim text := verbatim (.const text)

/-- Of a name, what it is mapped to is filled in. -/
theorem ofName (h : Mappings.Filled among m) (ctx : Context) (name : String) :
    Filled among fun standIn => (ctx.mapped (m standIn)).ofName name := by
  by_cases inScope : ctx.typeParams.contains name = true
  · exact (word name).of_eq fun standIn => if_pos inScope
  have looked : ∀ standIn, (ctx.mapped (m standIn)).ofName name =
      (((m standIn).find? name).or (builtin? name)).elim (.unresolved name) .verbatim :=
    fun _ => Context.ofName_of_outside inScope
  rcases h name with none | ⟨text, fills, found⟩
  · cases known : builtin? name with
    | none => exact (unresolved name).of_eq fun standIn => by rw [looked, none, known]; rfl
    | some text => exact (word text).of_eq fun standIn => by rw [looked, none, known]; rfl
  · exact (verbatim fills).of_eq fun standIn => by rw [looked, found]; rfl

/-- Of a name of a package, what it is mapped to is filled in. -/
theorem ofSelector (h : Mappings.Filled among m) (ctx : Context) (qualifier : TypeExpr) (sel : String) :
    Filled among fun standIn => (ctx.mapped (m standIn)).ofSelector qualifier sel := by
  by_cases unnamed : qualifier.qualifiedName = ""
  · exact (word "any").of_eq fun standIn => if_pos unnamed
  have looked : ∀ standIn, (ctx.mapped (m standIn)).ofSelector qualifier sel =
      ((m standIn).findQualified? qualifier.qualifiedName sel).elim
        (.unresolved (qualifier.qualifiedName ++ "." ++ sel)) .verbatim :=
    fun _ => Context.ofSelector_of_named unnamed
  rcases h.findQualified? qualifier.qualifiedName sel with none | ⟨text, fills, found⟩
  · exact (unresolved _).of_eq fun standIn => by rw [looked, none]; rfl
  · exact (verbatim fills).of_eq fun standIn => by rw [looked, found]; rfl

/-- The parentheses around a type are the same for every stand-in. -/
theorem parenIf (h : Filled among x) (enclose : Bool) :
    Filled among fun standIn => parenIf enclose (x standIn) := by
  cases enclose with
  | true => exact h.paren
  | false => exact h

/-- The `undefined` beside a pointer is the same for every stand-in. -/
theorem pointerTo (h : Filled among x) (slot : Slot) (isFunc : Bool) :
    Filled among fun standIn => pointerTo slot isFunc (x standIn) := by
  unfold TsType.pointerTo
  cases slot.admitsMissing with
  | true => exact ((h.parenIf isFunc).nullable).parenIf slot.enclosed
  | false => exact h

end TsType.Filled

/-- Parts that are put together from something fixed and a filled type each. -/
def FilledParts (among : List Surrogate) {head part : Type} (put : head → TsType → part)
    (parts : StandIn → List part) : Prop :=
  ∃ items : List (head × (StandIn → TsType)), (∀ i ∈ items, TsType.Filled among i.2) ∧
    ∀ standIn, parts standIn = items.map fun i => put i.1 (i.2 standIn)

namespace FilledParts

variable {head part : Type} {put : head → TsType → part} {parts more : StandIn → List part}

theorem nil : FilledParts among put fun _ => [] := ⟨[], List.forall_mem_nil _, fun _ => rfl⟩

/-- Parts that are filled in stand one behind the other. -/
theorem append (h : FilledParts among put parts) (h' : FilledParts among put more) :
    FilledParts among put fun standIn => parts standIn ++ more standIn := by
  obtain ⟨items, all, same⟩ := h
  obtain ⟨items', all', same'⟩ := h'
  refine ⟨items ++ items', List.forall_mem_append.2 ⟨all, all'⟩, fun standIn => ?_⟩
  rw [List.map_append, ← same, ← same']

/-- Parts that are put together from one type. -/
theorem ofHeads (heads : List head) {x : StandIn → TsType} (h : TsType.Filled among x) :
    FilledParts among put fun standIn => heads.map fun head => put head (x standIn) := by
  refine ⟨heads.map fun head => (head, x), List.forall_mem_map.2 fun _ _ => h, fun standIn => ?_⟩
  rw [List.map_map]
  rfl

theorem of_eq (h : FilledParts among put parts) (same : ∀ standIn, more standIn = parts standIn) :
    FilledParts among put more := funext same ▸ h

end FilledParts

/-- Types in a list, each filled. -/
abbrev FilledTypes (among : List Surrogate) (xs : StandIn → List TsType) : Prop :=
  FilledParts among (fun (_ : Unit) x => x) xs

/-- Members with filled types. -/
abbrev FilledMembers (among : List Surrogate) (ms : StandIn → List TsMember) : Prop :=
  FilledParts among (fun (m : TsMember) x => { m with type := x }) ms

/-- Parameters with filled types. -/
abbrev FilledParams (among : List Surrogate) (ps : StandIn → List TsParam) : Prop :=
  FilledParts among (fun (p : TsParam) x => { p with type := x }) ps

theorem FilledTypes.replicate {x : StandIn → TsType} (h : TsType.Filled among x) (n : Nat) :
    FilledTypes among fun standIn => List.replicate n (x standIn) := by
  have heads : FilledTypes among fun standIn => (List.replicate n ()).map fun _ => x standIn :=
    .ofHeads _ h
  simp only [List.map_replicate] at heads
  exact heads

/-- The members of a field are filled in as its type is. -/
theorem TsMember.filled_ofField {x : StandIn → TsType} (h : TsType.Filled among x) (style : NameStyle)
    (f : Field) (optional colon : Bool) :
    FilledMembers among fun standIn => ofField style f optional colon (x standIn) :=
  (FilledParts.ofHeads (ofField style f optional colon (.dropped "")) h).of_eq fun standIn => by
    rw [ofField, ofField, List.map_map]
    rfl

/-- A parameter is filled in as its type is. -/
theorem TsParam.filled_ofField {x : StandIn → TsType} (h : TsType.Filled among x) (i : Nat) (f : Field) :
    FilledParams among fun standIn => ofField i f (x standIn) :=
  (FilledParts.ofHeads (ofField i f (.dropped "")) h).of_eq fun standIn => by
    rw [ofField, ofField, List.map_map]
    rfl

/-- Every type is rendered as a filled one, with so much room. -/
def RendersFilled (among : List Surrogate) (m : StandIn → Mappings) (ctx : Context) (room : Nat) : Prop :=
  ∀ slot x, TsType.Filled among fun standIn => .ofExpr (ctx.mapped (m standIn)) room slot x

namespace RendersFilled

variable {ctx : Context} {room : Nat}

/-- Types in a list are filled in one by one. -/
theorem types (h : RendersFilled among m ctx room) (slot : Slot) (xs : List TypeExpr) :
    FilledTypes among fun standIn => xs.map (.ofExpr (ctx.mapped (m standIn)) room slot) := by
  refine ⟨xs.map fun x => ((), fun standIn => .ofExpr (ctx.mapped (m standIn)) room slot x),
    List.forall_mem_map.2 fun x _ => h slot x, fun standIn => ?_⟩
  rw [List.map_map]
  rfl

/-- The members of a struct are filled in as the types of its fields are. -/
theorem structMembers (h : RendersFilled among m ctx room) (fs : List Field) :
    FilledMembers among fun standIn => structMembers (ctx.mapped (m standIn)) room fs := by
  induction fs with
  | nil => exact .nil
  | cons f fs ih =>
    simp only [structMembers_cons]
    exact (TsMember.filled_ofField (h .part f.type.deref) ctx.config.fieldNames f f.type.isPointer
      true).append ih

/-- The members of an interface are filled in as its methods are. -/
theorem interfaceMembers (h : RendersFilled among m ctx room) (fs : List Field) :
    FilledMembers among fun standIn => interfaceMembers (ctx.mapped (m standIn)) room fs := by
  induction fs with
  | nil => exact .nil
  | cons f fs ih =>
    simp only [interfaceMembers_cons]
    exact (TsMember.filled_ofField (h .plain f.type) ctx.config.methodNames f false
      (!f.type.isFunc)).append ih

/-- Parameters are filled in as their types are. -/
theorem params (h : RendersFilled among m ctx room) (i : Nat) (fs : List Field) :
    FilledParams among fun standIn => paramsFrom (ctx.mapped (m standIn)) room i fs := by
  induction fs generalizing i with
  | nil => exact .nil
  | cons f fs ih =>
    simp only [paramsFrom_cons]
    exact (TsParam.filled_ofField (h .part f.type.deref) i f).append (ih (i + 1))

/-- Results are filled in as their types are. -/
theorem results (h : RendersFilled among m ctx room) (fs : List Field) :
    FilledTypes among fun standIn => resultsOf (ctx.mapped (m standIn)) room fs := by
  induction fs with
  | nil => exact .nil
  | cons f fs ih =>
    simp only [resultsOf_cons]
    exact (FilledTypes.replicate (h .result f.type) (max f.names.length 1)).append ih

end RendersFilled

/-- The result of a function, without an error at its end. -/
theorem FilledTypes.ofResults {xs : StandIn → List TsType} (h : FilledTypes among xs)
    (results : List Field) :
    TsType.Filled among fun standIn => .ofResults (withoutError results (xs standIn)) := by
  have kept : FilledTypes among fun standIn => withoutError results (xs standIn) := by
    obtain ⟨items, all, same⟩ := h
    unfold withoutError
    cases endsInError results with
    | true =>
      refine ⟨items.dropLast, fun i mem => all i ((List.dropLast_sublist items).subset mem), fun standIn => ?_⟩
      show (xs standIn).dropLast = _
      rw [same, List.map_dropLast]
    | false => exact ⟨items, all, same⟩
  obtain ⟨items, all, same⟩ := kept
  refine TsType.Filled.of_eq ?_ fun standIn => congrArg TsType.ofResults (same standIn)
  match items with
  | [] => exact .word "void"
  | [i] => exact all i (List.mem_singleton_self i)
  | i :: j :: items =>
    have each : ∀ x ∈ (i :: j :: items).map Prod.snd, TsType.Filled among x := List.forall_mem_map.2 all
    refine (TsType.Filled.tuple each).of_eq fun standIn => ?_
    rw [List.map_map]
    rfl

/-- Nothing but the words of the tree depends on what is filled in. -/
theorem rendersFilled (h : Mappings.Filled among m) (ctx : Context) (room : Nat) :
    RendersFilled among m ctx room := by
  induction room with
  | zero =>
    refine fun slot x => (TsType.Filled.cut ctx.config.maxDepth).of_eq fun standIn => ?_
    rw [TsType.ofExpr]
    rfl
  | succ room ih =>
    intro slot x
    cases x with
    | pointer x => exact (ih _ x).pointerTo slot x.isFunc
    | variadic elt =>
      unfold TsType.ofExpr
      cases elt.isNamed "byte" with
      | true => exact .word "string"
      | false => exact ((ih .part elt).parenIf elt.isFunc).list
    | array elt length =>
      unfold TsType.ofExpr
      cases elt.isNamed "byte" && !slot.extending with
      | true => exact (ih .part elt).bytes
      | false => exact (ih .part elt).array
    | struct fields =>
      obtain ⟨items, all, same⟩ := ih.structMembers fields
      exact (TsType.Filled.object all).of_eq fun standIn => congrArg TsType.object (same standIn)
    | interface methods =>
      obtain ⟨items, all, same⟩ := ih.interfaceMembers methods
      exact (TsType.Filled.object all).of_eq fun standIn => congrArg TsType.object (same standIn)
    | name name => exact .ofName h ctx name
    | selector x sel => exact .ofSelector h ctx x sel
    | map key value => exact .word dictionaryName
    | literal kind text => exact .word text
    | counted text => exact .word text
    | paren x => exact (ih .part x).paren
    | binary x op y => exact (ih .part x).binary op (ih .part y)
    | func params results typeParams =>
      obtain ⟨items, all, same⟩ := ih.params 0 params
      dsimp only at same
      have result := (ih.results results).ofResults results
      cases enclosed : slot.enclosed with
      | true =>
        refine (TsType.Filled.arrow all result).of_eq fun standIn => ?_
        rw [TsType.ofExpr, TsType.ofFunc, if_pos enclosed, same]
      | false =>
        refine (TsType.Filled.signature all result).of_eq fun standIn => ?_
        rw [TsType.ofExpr, TsType.ofFunc, if_neg (by simp [enclosed]), same]
    | unary op x =>
      unfold TsType.ofExpr
      by_cases tilde : op = "~"
      · simp only [if_pos tilde]
        exact ih .plain x
      · simp only [if_neg tilde]
        exact .dropped op
    | generic x args =>
      obtain ⟨items, all, same⟩ := ih.types .part args
      dsimp only at same
      have each : ∀ x ∈ items.map Prod.snd, TsType.Filled among x := List.forall_mem_map.2 all
      refine (TsType.Filled.generic (ih .plain x) each).of_eq fun standIn => ?_
      rw [TsType.ofExpr, typesOf_eq_map, same, List.map_map]
      rfl
    | call | channel | composite => exact .word "undefined"
    | unknown => exact .word "any"

/-! ## Declarations -/

/-- The declarations are one tree whose verbatim texts have characters filled in. -/
inductive TsDecl.Filled (among : List Surrogate) : (StandIn → TsDecl) → Prop where
  | interface (doc : List String) (name : String) (typeParams : List String)
      {bases : StandIn → List TsType} {members : StandIn → List TsMember} :
      FilledTypes among bases → FilledMembers among members →
      Filled among fun standIn => .interface doc name typeParams (bases standIn) (members standIn)
  | synonym (doc : List String) (name : String) (typeParams : List String) {type : StandIn → TsType}
      (note : String) : TsType.Filled among type →
      Filled among fun standIn => .synonym doc name typeParams (type standIn) note

namespace TsDecl.Filled

variable {d : StandIn → TsDecl}

/-- An interface that is a function. -/
theorem call (doc innerDoc : List String) (name : String) (typeParams : List String) (key note : String)
    {type : StandIn → TsType} (h : TsType.Filled among type) :
    Filled among fun standIn =>
      .interface doc name typeParams [] [.call innerDoc key (type standIn) note] :=
  .interface doc name typeParams .nil
    (FilledParts.ofHeads [TsMember.call innerDoc key (.dropped "") note] h)

/-- The bases of an interface are filled in, and nothing between them. -/
theorem extendsText {bases : StandIn → List TsType} (h : FilledTypes among bases) (indent : String) :
    IsFilled among fun standIn => extendsText indent (bases standIn) := by
  obtain ⟨items, all, same⟩ := h
  have each : ∀ x ∈ items.map Prod.snd, IsFilled among fun standIn => (x standIn).text indent 0 :=
    List.forall_mem_map.2 fun i mem => (all i mem).text indent 0
  have texts := TsType.Filled.texts each
  cases items with
  | nil =>
    simp only [same, List.map_nil]
    exact .const ""
  | cons i items =>
    have listed := (IsFilled.const " extends ").append texts
    simp only [same, List.map_map] at listed ⊢
    exact listed

/-- The text of a declaration is one text that is filled in. -/
theorem text (h : Filled among d) (indent startModifier : String) :
    IsFilled among fun standIn => (d standIn).text indent startModifier := by
  cases h with
  | interface doc name typeParams bases members =>
    obtain ⟨items, all, same⟩ := members
    have inside := TsType.Filled.memberTexts fun i mem => (all i mem).text indent 1
    simp only [same, TsDecl.text]
    have before := (extendsText bases indent).between
      (docBlock "" doc ++ modifierText startModifier ++ "interface " ++ name ++ typeParamsText typeParams)
      " \x7b\n"
    exact (before.append inside).append (.const "\x7d\n")
  | synonym doc name typeParams note type =>
    exact (type.text indent 0).between
      (docBlock "" doc ++ modifierText startModifier ++ "type " ++ name ++ typeParamsText typeParams
        ++ " = ") (lineEndText note)

/-- The issues of a declaration are the same for every stand-in. -/
theorem issues (h : Filled among d) (standIn other : StandIn) :
    (d standIn).issues = (d other).issues := by
  cases h with
  | interface doc name typeParams bases members =>
    obtain ⟨items, all, same⟩ := bases
    obtain ⟨items', all', same'⟩ := members
    have first : ∀ i ∈ items, (i.2 standIn).issues = (i.2 other).issues := fun i mem =>
      (all i mem).issues standIn other
    have second : ∀ i ∈ items', (i.2 standIn).issues = (i.2 other).issues := fun i mem =>
      (all' i mem).issues standIn other
    simp only [TsDecl.issues, same, same', issuesOfTypes_eq_flatMap, issuesOfMembers_eq_flatMap,
      List.flatMap_map]
    rw [List.flatMap_congr first, List.flatMap_congr second]
  | synonym _ _ _ _ type => exact type.issues standIn other

end TsDecl.Filled

/-- The declarations are one, or there is none. -/
def FilledDecl (among : List Surrogate) (d : StandIn → Option TsDecl) : Prop :=
  (∀ standIn, d standIn = none) ∨ ∃ t, TsDecl.Filled among t ∧ ∀ standIn, d standIn = some (t standIn)

/-- A type is hidden for every stand-in, or rendered as a declaration that is filled in. -/
theorem FilledDecl.ofTypeSpec? (h : Mappings.Filled among m) (ctx : Context) (spec : TypeSpec) :
    FilledDecl among fun standIn => TsDecl.ofTypeSpec? (ctx.mapped (m standIn)) spec := by
  obtain ⟨name, type, typeParams, doc, comment, isAlias⟩ := spec
  by_cases visible : Name.isVisible name = true
  · have renders := rendersFilled h (ctx.within (Field.allNames typeParams)) ctx.room
    have bases := fun fields => renders.types .base (Field.visibleBases fields)
    refine .inr ?_
    cases type with
    | struct fields =>
      exact ⟨_, .interface (docOf doc) name (Field.allNames typeParams) (bases fields)
        (renders.structMembers fields), fun standIn => if_pos visible⟩
    | interface methods =>
      exact ⟨_, .interface (docOf doc) name (Field.allNames typeParams) (bases methods)
        (renders.interfaceMembers methods), fun standIn => if_pos visible⟩
    | func params results inner =>
      exact ⟨_, .call (docOf doc) [] name (Field.allNames typeParams) "" (noteOf comment)
        (renders .plain (.func params results inner)), fun standIn => if_pos visible⟩
    | _ =>
      exact ⟨_, .synonym (docOf doc) name (Field.allNames typeParams) (noteOf comment)
        (renders .plain _), fun standIn => if_pos visible⟩
  · exact .inl fun standIn => if_neg visible

/-- A method is hidden for every stand-in, or rendered as a declaration that is filled in. -/
theorem FilledDecl.ofMethod? (h : Mappings.Filled among m) (ctx : Context) (decl : FuncDecl)
    (recv : Field) :
    FilledDecl among fun standIn => TsDecl.ofMethod? (ctx.mapped (m standIn)) decl recv := by
  by_cases visible : (Name.isVisible decl.name && Name.isVisible recv.receiver.1) = true
  · refine .inr ⟨_, .call [] (docOf decl.doc) recv.receiver.1 recv.receiver.2
      (Name.propertyKey (ctx.config.methodNames.apply decl.name)) ""
      (rendersFilled h (ctx.within (recv.receiver.2 ++ Field.allNames decl.typeParams)) ctx.room .plain
        decl.type), fun standIn => if_pos visible⟩
  · exact .inl fun standIn => if_neg visible

/-- A function is hidden for every stand-in, or rendered as a declaration that is filled in. -/
theorem FilledDecl.ofFunction? (h : Mappings.Filled among m) (ctx : Context) (decl : FuncDecl) :
    FilledDecl among fun standIn => TsDecl.ofFunction? (ctx.mapped (m standIn)) decl := by
  by_cases visible : Name.isVisible decl.name = true
  · refine .inr ⟨_, .call (docOf decl.doc) [] decl.name (Field.allNames decl.typeParams) "" ""
      (rendersFilled h (ctx.within (Field.allNames decl.typeParams)) ctx.room .plain decl.type),
      fun standIn => if_pos visible⟩
  · exact .inl fun standIn => if_neg visible

/-- A declaration of a known form is rendered as a filled one, or it is hidden. -/
theorem FilledDecl.ofDecl (h : Mappings.Filled among m) (ctx : Context) {d : Decl}
    (known : d ≠ .unknown) : ∃ t, FilledDecl among t ∧
      ∀ standIn, TsDecl.ofDecl (ctx.mapped (m standIn)) d = .ok (t standIn) := by
  cases d with
  | typeSpec spec => exact ⟨_, .ofTypeSpec? h ctx spec, fun _ => rfl⟩
  | func decl =>
    obtain ⟨name, params, results, typeParams, recv, doc⟩ := decl
    cases recv with
    | none => exact ⟨_, .ofFunction? h ctx _, fun _ => rfl⟩
    | some recv => exact ⟨_, .ofMethod? h ctx _ recv, fun _ => rfl⟩
  | unknown => exact absurd rfl known

/-- Declarations of known forms are rendered for every stand-in, as declarations that are filled in. -/
theorem TsDecl.exists_filled (h : Mappings.Filled among m) (ctx : Context) {ds : List Decl}
    (known : ∀ d ∈ ds, d ≠ .unknown) : ∃ ts : List (StandIn → TsDecl),
      (∀ t ∈ ts, TsDecl.Filled among t) ∧
      ∀ standIn, ofDecls (ctx.mapped (m standIn)) ds = .ok (ts.map fun t => t standIn) := by
  induction ds with
  | nil => exact ⟨[], List.forall_mem_nil _, fun _ => rfl⟩
  | cons d ds ih =>
    obtain ⟨here, later⟩ := List.forall_mem_cons.1 known
    obtain ⟨t, filled, first⟩ := FilledDecl.ofDecl h ctx here
    obtain ⟨ts, all, rest⟩ := ih later
    have run : ∀ standIn, ofDecls (ctx.mapped (m standIn)) (d :: ds) =
        .ok ((t standIn).toList ++ ts.map fun t => t standIn) := by
      intro standIn
      rw [ofDecls, first, rest]
      rfl
    rcases filled with none | ⟨u, one, some⟩
    · refine ⟨ts, all, fun standIn => ?_⟩
      rw [run, none]
      rfl
    · refine ⟨u :: ts, List.forall_mem_cons.2 ⟨one, all⟩, fun standIn => ?_⟩
      rw [run, some]
      rfl

/-! ## Files -/

/-- The text of a file is filled, as each of its blocks is. -/
theorem TsDecl.Filled.fileText (config : Config) {ts : List (StandIn → TsDecl)}
    (all : ∀ t ∈ ts, TsDecl.Filled among t) :
    IsFilled among fun standIn =>
      fileText (config.mapped (m standIn)) (ts.map fun t => t standIn) := by
  have front : ∀ text ∈ ((headingText config.heading).toList ++
      [dictionaryText config.startModifier]).map fun text (_ : StandIn) => text,
      IsFilled among text := List.forall_mem_map.2 fun text _ => .const text
  have blocks : ∀ text ∈ ts.map fun t standIn => (t standIn).text config.indent config.startModifier,
      IsFilled among text := List.forall_mem_map.2 fun t mem => (all t mem).text _ _
  have joined := IsFilled.intercalate "\n" (List.forall_mem_append.2 ⟨front, blocks⟩)
  simp only [List.map_append, List.map_map, Function.comp_def, List.map_id_fun', id_eq,
    List.append_assoc] at joined
  simp only [Typings.fileText, List.map_map, Function.comp_def]
  exact joined

/-- Declarations of known forms are rendered as one text with characters filled in for its surrogates, which
are surrogates of mappings; and what is noted is the same whatever is filled in. -/
theorem Rendering.exists_filled (h : Mappings.Filled among m) (config : Config) {decls : List Decl}
    (known : ∀ d ∈ decls, d ≠ .unknown) : ∃ (text : CodePoints) (noted : Diagnostics),
      (∀ s, .surrogate s ∈ text → s ∈ among) ∧
      ∀ standIn, ofDecls (config.mapped (m standIn)) decls = .ok ⟨text.fill standIn, noted⟩ := by
  obtain ⟨ts, all, run⟩ := TsDecl.exists_filled h { config := config } known
  obtain ⟨text, mentioned, fills⟩ := TsDecl.Filled.fileText (m := m) config all
  have issues : ∀ standIn, (ts.map fun t => t standIn).flatMap TsDecl.issues =
      ts.flatMap fun t => (t CodePoints.plainly).issues := by
    intro standIn
    rw [List.flatMap_map]
    exact List.flatMap_congr fun t mem => (all t mem).issues standIn CodePoints.plainly
  refine ⟨text, ({} : Diagnostics).add (ts.flatMap fun t => (t CodePoints.plainly).issues), mentioned,
    fun standIn => ?_⟩
  have rendered : TsDecl.ofDecls { config := config.mapped (m standIn) } decls =
      .ok (ts.map fun t => t standIn) := run standIn
  rw [← fills, ← issues standIn, ofDecls, rendered]
  rfl

end

end Typings
