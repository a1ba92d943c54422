import Typings.Proofs.Comments.Bare
import Typings.Proofs.Name.Characters
import Typings.Proofs.Parser.Names
import Typings.Proofs.Surface.Forms

/-!
# Words without slashes

If no word of a declaration has a slash in it, and none of the texts that the options put in, then no
word has one that the declaration is rendered with (`TsDecl.plain_ofDecls`): a name keeps free of them
in lower case and between quotes, and all other words are given.
-/

namespace Typings

/-! ## Names -/

/-- Names without slashes are closed under what is done with names. -/
theorem Slashless.stable : Name.Stable Slashless :=
  Name.stable_of_foreign (Name.foreign_of_isForeign (by decide +kernel)) (by decide)

/-- No scanned name has a slash in it. -/
theorem Slashless.ofIdent {n : String} (h : (Lexeme.ident n).IsScanned) : Slashless n :=
  Name.not_mem_ident (Name.foreign_of_isForeign (by decide +kernel)) h

/-! ## Options -/

/-- No style of names brings a slash in. -/
theorem NameStyle.slashless_apply {style : NameStyle} (plain : style = .keep ∨ style = .camel)
    {name : String} (h : Slashless name) : Slashless (style.apply name) :=
  Slashless.stable.apply plain h

/-- The options put no slash into declarations: the texts of the mappings have none, and the styles of
names add none. -/
structure Config.AddsNoSlash (config : Config) : Prop where
  mappings : ∀ entry ∈ config.mappings.entries, Slashless entry.2
  fieldNames : ∀ {name}, Slashless name → Slashless (config.fieldNames.apply name)
  methodNames : ∀ {name}, Slashless name → Slashless (config.methodNames.apply name)

/-- The names in scope do not matter. -/
theorem Config.AddsNoSlash.within {ctx : Context} (h : ctx.config.AddsNoSlash) (names : List String) :
    (ctx.within names).config.AddsNoSlash := h

/-! ## Types -/

section

variable {ctx : Context} {room : Nat}

theorem slashless_builtin {name text : String} (h : builtin? name = some text) : Slashless text :=
  (by decide : ∀ text ∈ ["string", "boolean", "Error", "number"], Slashless text) _ (mem_of_builtin? h)

/-- What a name is rendered as is without slashes. -/
theorem Context.plain_ofName (adds : ctx.config.AddsNoSlash) {name : String} (h : Slashless name) :
    (ctx.ofName name).Plain := by
  unfold ofName
  split
  · exact h
  · split
    · next text found =>
      rcases Option.or_eq_some_iff.1 found with mapped | ⟨-, known⟩
      · exact adds.mappings _ (Mappings.mem_of_find? mapped)
      · exact slashless_builtin known
    · exact h

/-- What a selector is rendered as is without slashes. -/
theorem Context.plain_ofSelector (adds : ctx.config.AddsNoSlash) {x : TypeExpr} {sel : String}
    (qualifier : x.WordsIn Slashless) (h : Slashless sel) : (ctx.ofSelector x sel).Plain := by
  unfold ofSelector
  split
  · exact (by decide : Slashless "any")
  · split
    · next text found =>
      obtain ⟨key, mem⟩ := Mappings.exists_of_findQualified? found
      exact adds.mappings _ mem
    · exact ((Slashless.stable.qualifiedName x qualifier).append (by decide)).append h

namespace TsType.Plain

variable {x : TsType}

theorem parenIf (h : x.Plain) (enclose : Bool) : (parenIf enclose x).Plain := by
  cases enclose <;> exact h

/-- What stands for a pointer brings no slash in. -/
theorem pointerTo (h : x.Plain) (slot : Slot) (isFunc : Bool) : (pointerTo slot isFunc x).Plain := by
  unfold TsType.pointerTo
  split
  · exact parenIf (x := .nullable _) (h.parenIf isFunc) slot.enclosed
  · exact h

end TsType.Plain

theorem plainTypes_iff {xs : List TsType} : PlainTypes xs ↔ ∀ x ∈ xs, x.Plain := by
  induction xs with
  | nil => exact ⟨fun _ => List.forall_mem_nil _, fun _ => trivial⟩
  | cons x xs ih => rw [PlainTypes, ih, List.forall_mem_cons]

/-- The words of a member have no slash, and the comment behind it no newline. -/
def TsMember.Plain (m : TsMember) : Prop := Slashless m.key ∧ m.type.Plain ∧ '\n' ∉ m.note.toList

/-- The words of a parameter have no slash. -/
def TsParam.Plain (p : TsParam) : Prop := Slashless p.name ∧ p.type.Plain

theorem plainMembers_iff {ms : List TsMember} : PlainMembers ms ↔ ∀ m ∈ ms, m.Plain := by
  induction ms with
  | nil => exact ⟨fun _ => List.forall_mem_nil _, fun _ => trivial⟩
  | cons m ms ih =>
    obtain ⟨doc, key, optional, colon, type, note⟩ := m
    rw [PlainMembers, ih, List.forall_mem_cons, TsMember.Plain, and_assoc, and_assoc]

theorem plainParams_iff {ps : List TsParam} : PlainParams ps ↔ ∀ p ∈ ps, p.Plain := by
  induction ps with
  | nil => exact ⟨fun _ => List.forall_mem_nil _, fun _ => trivial⟩
  | cons p ps ih =>
    obtain ⟨spread, name, type, note⟩ := p
    rw [PlainParams, ih, List.forall_mem_cons, TsParam.Plain, and_assoc]

/-- The members of a field are without slashes: its names are, and so is its type. -/
theorem TsMember.plain_ofField {style : NameStyle}
    (spells : ∀ {name}, Slashless name → Slashless (style.apply name)) {f : Field}
    (names : ∀ n ∈ f.names, Slashless n) {optional colon : Bool} {type : TsType} (h : type.Plain) :
    ∀ m ∈ TsMember.ofField style f optional colon type, m.Plain := by
  refine List.forall_mem_map.2 fun n visible => ⟨?_, h, not_mem_noteOf _⟩
  exact Slashless.stable.propertyKey (spells (names n (List.mem_filter.1 visible).1))

theorem TsParam.plain_ofField {i : Nat} {f : Field} (names : ∀ n ∈ f.names, Slashless n)
    {type : TsType} (h : type.Plain) : ∀ p ∈ TsParam.ofField i f type, p.Plain :=
  List.forall_mem_map.2 fun _ placed => ⟨Slashless.stable.of_mem_namesAt names placed, h⟩

/-- Every type whose words have no slash is rendered without any, with so much room. -/
def RendersPlain (ctx : Context) (room : Nat) : Prop :=
  ∀ slot x, x.WordsIn Slashless → (TsType.ofExpr ctx room slot x).Plain

namespace RendersPlain

theorem types (h : RendersPlain ctx room) {xs : List TypeExpr} (words : ∀ x ∈ xs, x.WordsIn Slashless) :
    ∀ x ∈ typesOf ctx room xs, x.Plain := by
  rw [typesOf_eq_map]
  exact List.forall_mem_map.2 fun x mem => h .part x (words x mem)

/-- The members of a struct are without slashes. -/
theorem structMembers (h : RendersPlain ctx room) (adds : ctx.config.AddsNoSlash) {fs : List Field}
    (words : ∀ f ∈ fs, f.WordsIn Slashless) : ∀ m ∈ structMembers ctx room fs, m.Plain := by
  induction fs with
  | nil => exact List.forall_mem_nil _
  | cons f fs ih =>
    obtain ⟨⟨names, type⟩, rest⟩ := List.forall_mem_cons.1 words
    rw [structMembers_cons]
    refine List.forall_mem_append.2 ⟨?_, ih rest⟩
    exact TsMember.plain_ofField adds.fieldNames names (h .part _ type.deref)

/-- The members of an interface are without slashes. -/
theorem interfaceMembers (h : RendersPlain ctx room) (adds : ctx.config.AddsNoSlash) {fs : List Field}
    (words : ∀ f ∈ fs, f.WordsIn Slashless) : ∀ m ∈ interfaceMembers ctx room fs, m.Plain := by
  induction fs with
  | nil => exact List.forall_mem_nil _
  | cons f fs ih =>
    obtain ⟨⟨names, type⟩, rest⟩ := List.forall_mem_cons.1 words
    rw [interfaceMembers_cons]
    refine List.forall_mem_append.2 ⟨?_, ih rest⟩
    exact TsMember.plain_ofField adds.methodNames names (h .plain _ type)

/-- The parameters of a function are without slashes. -/
theorem params (h : RendersPlain ctx room) {fs : List Field} (words : ∀ f ∈ fs, f.WordsIn Slashless)
    (i : Nat) : ∀ p ∈ paramsFrom ctx room i fs, p.Plain := by
  induction fs generalizing i with
  | nil => exact List.forall_mem_nil _
  | cons f fs ih =>
    obtain ⟨⟨names, type⟩, rest⟩ := List.forall_mem_cons.1 words
    rw [paramsFrom_cons]
    exact List.forall_mem_append.2 ⟨TsParam.plain_ofField names (h .part _ type.deref), ih rest _⟩

/-- The results of a function are without slashes. -/
theorem results (h : RendersPlain ctx room) {fs : List Field} (words : ∀ f ∈ fs, f.WordsIn Slashless) :
    ∀ x ∈ resultsOf ctx room fs, x.Plain := by
  induction fs with
  | nil => exact List.forall_mem_nil _
  | cons f fs ih =>
    obtain ⟨⟨-, type⟩, rest⟩ := List.forall_mem_cons.1 words
    rw [resultsOf_cons]
    refine List.forall_mem_append.2 ⟨fun x mem => ?_, ih rest⟩
    rw [List.eq_of_mem_replicate mem]
    exact h .result _ type

end RendersPlain

theorem TsType.plain_ofResults {xs : List TsType} (h : ∀ x ∈ xs, x.Plain) : (ofResults xs).Plain := by
  unfold ofResults
  split
  · exact (by decide : Slashless "void")
  · exact List.forall_mem_singleton.1 h
  · exact plainTypes_iff.2 h

theorem TsType.plain_ofFunc {slot : Slot} {params : List TsParam} {result : TsType}
    (h : ∀ p ∈ params, p.Plain) (k : result.Plain) : (ofFunc slot params result).Plain := by
  unfold ofFunc
  split <;> exact ⟨plainParams_iff.2 h, k⟩

/-- A type without slashes is rendered without any. -/
theorem rendersPlain (adds : ctx.config.AddsNoSlash) (room : Nat) : RendersPlain ctx room := by
  induction room with
  | zero =>
    intro slot x words
    rw [TsType.ofExpr]
    trivial
  | succ room ih =>
    intro slot x words
    cases x with
    | pointer x => exact (ih _ x words).pointerTo slot x.isFunc
    | variadic elt =>
      rw [TsType.ofExpr]
      split
      · exact (by decide : Slashless "string")
      · exact (ih .part elt words).parenIf elt.isFunc
    | array elt length =>
      rw [TsType.ofExpr]
      split <;> exact ih .part elt words
    | struct fields =>
      exact plainMembers_iff.2 (ih.structMembers adds (fieldsIn_iff.1 words))
    | interface methods =>
      exact plainMembers_iff.2 (ih.interfaceMembers adds (fieldsIn_iff.1 words))
    | name name => exact Context.plain_ofName adds words
    | selector x sel => exact Context.plain_ofSelector adds words.1 words.2
    | map key value => exact (by decide : Slashless dictionaryName)
    | literal kind text => exact words
    | counted text => exact words
    | paren x => exact ih .part x words
    | binary x op y => exact ⟨ih .part x words.1, words.2.1, ih .part y words.2.2⟩
    | func params results typeParams =>
      refine TsType.plain_ofFunc (ih.params (fieldsIn_iff.1 words.1) 0) (TsType.plain_ofResults ?_)
      exact fun x mem => ih.results (fieldsIn_iff.1 words.2) x (mem_of_mem_withoutError mem)
    | unary op x =>
      rw [TsType.ofExpr]
      split
      · exact ih .plain x words
      · trivial
    | generic x args =>
      exact ⟨ih .plain x words.1, plainTypes_iff.2 (ih.types (typesIn_iff.1 words.2))⟩
    | call fn args => exact (by decide : Slashless "undefined")
    | channel dir value => exact (by decide : Slashless "undefined")
    | composite type elts => exact (by decide : Slashless "undefined")
    | unknown => exact (by decide : Slashless "any")

/-! ## Declarations -/

namespace TsDecl

theorem plain_basesOf (adds : ctx.config.AddsNoSlash) {fields : List Field}
    (words : ∀ f ∈ fields, f.WordsIn Slashless) : ∀ x ∈ basesOf ctx fields, x.Plain := by
  unfold basesOf Field.visibleBases
  rw [List.map_map]
  exact List.forall_mem_map.2 fun f visible =>
    rendersPlain adds ctx.room .base f.type (words f (List.mem_filter.1 visible).1).2

/-- An interface that is a function. -/
theorem plain_call {doc innerDoc : List String} {name key note : String} {params : List String}
    {type : TsType} (word : Slashless name) (names : ∀ n ∈ params, Slashless n) (member : Slashless key)
    (plain : type.Plain) (line : '\n' ∉ note.toList) :
    (TsDecl.interface doc name params [] [.call innerDoc key type note]).Plain :=
  ⟨word, names, trivial, member, plain, line, trivial⟩

/-- Whatever form the declaration has. -/
theorem plain_of_rendersTo (adds : ctx.config.AddsNoSlash) {d : Decl} {t : TsDecl}
    (words : d.WordsIn Slashless) (form : d.RendersTo ctx t) : t.Plain := by
  cases form with
  | @struct spec fields visible form =>
    obtain ⟨word, names, type⟩ := words
    rw [form] at type
    have fields := fieldsIn_iff.1 type
    have inner := adds.within (Field.allNames spec.typeParams)
    exact ⟨word, names, plainTypes_iff.2 (plain_basesOf inner fields),
      plainMembers_iff.2 ((rendersPlain inner ctx.room).structMembers inner fields)⟩
  | @interface spec methods visible form =>
    obtain ⟨word, names, type⟩ := words
    rw [form] at type
    have methods := fieldsIn_iff.1 type
    have inner := adds.within (Field.allNames spec.typeParams)
    exact ⟨word, names, plainTypes_iff.2 (plain_basesOf inner methods),
      plainMembers_iff.2 ((rendersPlain inner ctx.room).interfaceMembers inner methods)⟩
  | callable visible form =>
    obtain ⟨word, names, type⟩ := words
    rw [form] at type
    exact plain_call word names (by decide) (rendersPlain (adds.within _) _ .plain _ type)
      (not_mem_noteOf _)
  | synonym =>
    obtain ⟨word, names, type⟩ := words
    exact ⟨word, names, rendersPlain (adds.within _) _ .plain _ type, not_mem_noteOf _⟩
  | method owner =>
    obtain ⟨word, names, type, receiver⟩ := words
    obtain ⟨ownerName, params⟩ := Slashless.stable.receiver (receiver _ owner)
    exact plain_call ownerName params (Slashless.stable.propertyKey (adds.methodNames word))
      (rendersPlain (adds.within _) _ .plain _ type) nofun
  | function =>
    obtain ⟨word, names, type, -⟩ := words
    exact plain_call word names (by decide) (rendersPlain (adds.within _) _ .plain _ type) nofun

/-- A declaration whose words have no slash is rendered, and the rendering is without slashes. -/
theorem plain_ofDecl (adds : ctx.config.AddsNoSlash) {d : Decl} (words : d.WordsIn Slashless) :
    ∃ rendered, ofDecl ctx d = .ok rendered ∧ ∀ t ∈ rendered, t.Plain := by
  obtain ⟨rendered, run, forms⟩ := d.exists_rendered ctx words.known
  exact ⟨rendered, run, fun t mem => plain_of_rendersTo adds words (forms t mem)⟩

/-- Declarations of known forms whose words have no slash are rendered, and without any. -/
theorem plain_ofDecls (adds : ctx.config.AddsNoSlash) {ds : List Decl}
    (words : ∀ d ∈ ds, d.WordsIn Slashless) :
    ∃ rendered, ofDecls ctx ds = .ok rendered ∧ ∀ t ∈ rendered, t.Plain :=
  forall_ofDecls fun d mem => plain_ofDecl adds (words d mem)

end TsDecl

end

end Typings
