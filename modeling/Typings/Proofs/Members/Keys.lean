import Mathlib.Data.List.Forall2
import Typings.Proofs.Members.Written
import Typings.Rendering

/-!
# The keys of members

A member that is written begins with its key, and behind the key a colon or an opening parenthesis
separates it from what follows. The writer of a member leaves the separation to the type if that is
the signature of a method; where there is no room for the signature, `any` stands in its place, and
nothing separates it from the key. This is the only exception (`TsDecl.member_separated_iff`), and it
is met: the method `Foo()` without room is written `Fooany`.
-/

namespace Typings

/-- A member as the source has it: its name, whether it is a method, its type, and the levels that
there is room for in its type. -/
structure SourceMember where
  name : String
  isMethod : Bool
  type : TypeExpr
  room : Nat

namespace SourceMember

/-- The key that the member is written with. -/
def key (config : Config) (s : SourceMember) : String :=
  Name.propertyKey ((if s.isMethod then config.methodNames else config.fieldNames).apply s.name)

/-- The member is a method without room for its signature. -/
def lacksSignature (s : SourceMember) : Bool := s.isMethod && s.type.isFunc && s.room = 0

end SourceMember

/-- The visible members of a body, each followed by those inside its type. -/
def bodyMembers (isMethod : Bool) (room : Nat) (inside : Field → List SourceMember)
    (fields : List Field) : List SourceMember :=
  fields.flatMap fun f => (f.names.filter Name.isVisible).flatMap fun name =>
    ⟨name, isMethod, f.type, room⟩ :: inside f

/-- The members inside the types of a parameter or result list, whose entries stand once for each
name, and once if they have none. -/
def listMembers (inside : Field → List SourceMember) (fields : List Field) : List SourceMember :=
  fields.flatMap fun f => (List.replicate (max f.names.length 1) (inside f)).flatten

/-- The visible members in the bodies of a type that has room for so many levels. -/
def TypeExpr.members : Nat → TypeExpr → List SourceMember
  | 0, _ => []
  | room + 1, .pointer x | room + 1, .variadic x | room + 1, .array x _ | room + 1, .paren x =>
    x.members room
  | room + 1, .struct fields => bodyMembers false room (fun f => f.type.deref.members room) fields
  | room + 1, .interface methods => bodyMembers true room (fun f => f.type.members room) methods
  | room + 1, .binary x _ y => x.members room ++ y.members room
  | room + 1, .func params results _ =>
    listMembers (fun f => f.type.deref.members room) params
      ++ listMembers (fun f => f.type.members room) results
  | room + 1, .unary op x => if op = "~" then x.members room else []
  | room + 1, .generic x args => x.members room ++ args.flatMap (TypeExpr.members room)
  | _ + 1, _ => []

/-- The visible members of a declaration and those inside its types. -/
def Decl.members (room : Nat) : Decl → List SourceMember
  | .typeSpec spec =>
    match spec.type with
    | .struct fields =>
      (Field.visibleBases fields).flatMap (TypeExpr.members room)
        ++ bodyMembers false room (fun f => f.type.deref.members room) fields
    | .interface methods =>
      (Field.visibleBases methods).flatMap (TypeExpr.members room)
        ++ bodyMembers true room (fun f => f.type.members room) methods
    | type => type.members room
  | .func decl =>
    match decl.recv with
    | some _ => ⟨decl.name, true, decl.type, room⟩ :: decl.type.members room
    | none => decl.type.members room
  | .unknown => []

/-- The text begins with the key, and behind that, perhaps after a question mark, stands a colon or
an opening parenthesis. -/
def Separated (key text : String) : Prop :=
  ∃ mark ∈ ["", "?"], ∃ sep ∈ [":", "("], ∃ rest, text = key ++ mark ++ sep ++ rest

/-- The member is written under its key, and separated from it unless its signature is lacking. -/
def WrittenAs (config : Config) (indent : String) (w : WrittenMember) (s : SourceMember) : Prop :=
  w.member.key = s.key config ∧
    (Separated (s.key config) (w.text indent) ↔ s.lacksSignature = false)

/-! ## One member -/

theorem Name.propertyKey_ne_empty (name : String) : Name.propertyKey name ≠ "" := by
  unfold Name.propertyKey
  split
  · next h =>
    rintro rfl
    exact absurd h (by decide)
  · intro h
    have chars := congrArg String.toList h
    rw [List.cons_append, String.toList_ofList] at chars
    cases chars

section OneMember

variable {indent : String} {depth : Int} {m : TsMember}

/-- A colon separates a key from its type. -/
theorem separated_of_colon (h : m.colon = true) : Separated m.key (m.text indent depth) := by
  refine ⟨if m.optional then "?" else "", ?_, ":", by decide, " " ++ m.type.text indent depth, ?_⟩
  · split <;> decide
  · have space : ": " = ":" ++ " " := by decide
    rw [TsMember.text, h, if_pos rfl, space]
    simp only [String.append_assoc]

/-- The parenthesis of a signature separates a key from it. -/
theorem separated_of_signature {params : List TsParam} {result : TsType}
    (optional : m.optional = false) (colon : m.colon = false) (h : m.type = .signature params result) :
    Separated m.key (m.text indent depth) := by
  refine ⟨"", by decide, "(", by decide, ", ".intercalate (textsOfParams indent depth params)
    ++ "): " ++ result.text indent depth, ?_⟩
  rw [TsMember.text, optional, colon, h, TsType.text]
  simp only [Bool.false_eq_true, if_false, String.append_empty, String.append_assoc]

/-- Nothing separates a key from the `any` of a type that is cut off. -/
theorem not_separated_of_cut {limit : Int} (optional : m.optional = false) (colon : m.colon = false)
    (h : m.type = .cut limit) : ¬Separated m.key (m.text indent depth) := by
  rintro ⟨mark, hmark, sep, hsep, rest, same⟩
  rw [TsMember.text, optional, colon, h, TsType.text] at same
  have behind : "any" = mark ++ sep ++ rest := by
    have chars := congrArg String.toList same
    apply String.toList_inj.1
    simpa only [Bool.false_eq_true, if_false, String.append_empty, String.append_assoc,
      String.toList_append, List.append_cancel_left_eq] using chars
  have chars := congrArg String.toList behind
  rcases List.mem_pair.1 hmark with rfl | rfl <;> rcases List.mem_pair.1 hsep with rfl | rfl <;>
    simp at chars

end OneMember

variable {ctx : Context} {indent : String} {depth : Int} {room : Nat}

/-- A field of a struct is written with a colon. -/
theorem writtenAs_field {m : TsMember} {name : String} {x : TypeExpr}
    (key : m.key = Name.propertyKey (ctx.config.fieldNames.apply name)) (colon : m.colon = true) :
    WrittenAs ctx.config indent ⟨depth, m⟩ ⟨name, false, x, room⟩ := by
  refine ⟨key, fun _ => rfl, fun _ => ?_⟩
  have h : Separated m.key (m.text indent depth) := separated_of_colon colon
  rw [key] at h
  exact h

/-- A method is separated from its key by the signature that is its type, if there is room for it,
and by a colon if its type is no signature. -/
theorem writtenAs_method {m : TsMember} {name : String} {x : TypeExpr}
    (key : m.key = Name.propertyKey (ctx.config.methodNames.apply name))
    (optional : m.optional = false) (colon : m.colon = !x.isFunc)
    (type : m.type = .ofExpr ctx room .plain x) :
    WrittenAs ctx.config indent ⟨depth, m⟩ ⟨name, true, x, room⟩ := by
  refine ⟨key, ?_⟩
  show Separated (Name.propertyKey (ctx.config.methodNames.apply name)) (m.text indent depth) ↔ _
  rw [← key]
  cases hx : x.isFunc with
  | false =>
    rw [hx] at colon
    have lacks : (SourceMember.mk name true x room).lacksSignature = false := by
      simp [SourceMember.lacksSignature, hx]
    exact ⟨fun _ => lacks, fun _ => separated_of_colon colon⟩
  | true =>
    rw [hx] at colon
    cases room with
    | zero =>
      have lacks : (SourceMember.mk name true x 0).lacksSignature = true := by
        simp [SourceMember.lacksSignature, hx]
      have cut : m.type = .cut ctx.config.maxDepth := by rw [type, TsType.ofExpr]
      rw [lacks]
      exact ⟨fun h => absurd h (not_separated_of_cut optional colon cut), nofun⟩
    | succ room =>
      have lacks : (SourceMember.mk name true x (room + 1)).lacksSignature = false := by
        simp [SourceMember.lacksSignature]
      refine ⟨fun _ => lacks, fun _ => ?_⟩
      cases x with
      | func params results typeParams =>
        exact separated_of_signature optional colon (type.trans (by rw [TsType.ofExpr]; rfl))
      | _ => cases hx

/-! ## Several members -/

/-- Members are written as the source has them, one after another. -/
def AllWrittenAs (config : Config) (indent : String) (ws : List WrittenMember)
    (ss : List SourceMember) : Prop := List.Forall₂ (WrittenAs config indent) ws ss

/-- Members of two lists that are written as members of a source are so in one list. -/
theorem AllWrittenAs.append {config : Config} {ws ws' : List WrittenMember}
    {ss ss' : List SourceMember} (h : AllWrittenAs config indent ws ss)
    (k : AllWrittenAs config indent ws' ss') :
    AllWrittenAs config indent (ws ++ ws') (ss ++ ss') := List.rel_append h k

theorem AllWrittenAs.replicate {config : Config} {ws : List WrittenMember} {ss : List SourceMember}
    (h : AllWrittenAs config indent ws ss) (n : Nat) :
    AllWrittenAs config indent (List.replicate n ws).flatten (List.replicate n ss).flatten := by
  induction n with
  | zero => exact .nil
  | succ n ih =>
    rw [List.replicate_succ, List.replicate_succ, List.flatten_cons, List.flatten_cons]
    exact h.append ih

/-- The members of a field, from one of them and from those inside the type. -/
theorem allWrittenAs_ofField {style : NameStyle} {f : Field} {optional colon isMethod : Bool}
    {type : TsType} {inside : List SourceMember}
    (own : ∀ name, WrittenAs ctx.config indent
      ⟨depth, ⟨docOf f.doc, Name.propertyKey (style.apply name), optional, colon, type,
        noteOf f.comment⟩⟩ ⟨name, isMethod, f.type, room⟩)
    (inner : AllWrittenAs ctx.config indent (type.written depth) inside) :
    AllWrittenAs ctx.config indent
      (writtenInMembers depth (TsMember.ofField style f optional colon type))
      ((f.names.filter Name.isVisible).flatMap fun name =>
        ⟨name, isMethod, f.type, room⟩ :: inside) := by
  unfold TsMember.ofField
  induction f.names.filter Name.isVisible with
  | nil => exact .nil
  | cons name names ih =>
    rw [List.map_cons, writtenInMembers_cons, if_neg (Name.propertyKey_ne_empty _),
      List.flatMap_cons]
    exact .append (.cons (own name) inner) ih

/-- All types with so much room have their members written as the source has them. -/
def TypesWrittenAs (ctx : Context) (indent : String) (room : Nat) : Prop :=
  ∀ slot depth x, AllWrittenAs ctx.config indent ((TsType.ofExpr ctx room slot x).written depth)
    (x.members room)

/-- The members of a struct, and those inside of them, are written as the fields of the source. -/
theorem allWrittenAs_structMembers (ih : TypesWrittenAs ctx indent room) (fields : List Field) :
    AllWrittenAs ctx.config indent (writtenInMembers depth (structMembers ctx room fields))
      (bodyMembers false room (fun f => f.type.deref.members room) fields) := by
  induction fields with
  | nil => exact .nil
  | cons f fields rest =>
    rw [structMembers_cons, writtenInMembers_append, bodyMembers, List.flatMap_cons]
    exact .append (allWrittenAs_ofField (fun _ => writtenAs_field rfl rfl) (ih _ _ _)) rest

/-- The members of an interface, and those inside of them, are written as the methods of the source. -/
theorem allWrittenAs_interfaceMembers (ih : TypesWrittenAs ctx indent room)
    (methods : List Field) :
    AllWrittenAs ctx.config indent (writtenInMembers depth (interfaceMembers ctx room methods))
      (bodyMembers true room (fun f => f.type.members room) methods) := by
  induction methods with
  | nil => exact .nil
  | cons f methods rest =>
    rw [interfaceMembers_cons, writtenInMembers_append, bodyMembers, List.flatMap_cons]
    exact .append (allWrittenAs_ofField (fun _ => writtenAs_method rfl rfl rfl rfl) (ih _ _ _)) rest

theorem writtenInParams_ofField (i : Nat) (f : Field) (type : TsType) :
    writtenInParams depth (TsParam.ofField i f type) =
      (List.replicate (max f.names.length 1) (type.written depth)).flatten := by
  have count : (TsParam.namesAt i f.names).length = max f.names.length 1 := by
    unfold TsParam.namesAt
    cases f.names with
    | nil => rfl
    | cons => simp
  unfold TsParam.ofField
  rw [← count]
  induction TsParam.namesAt i f.names with
  | nil => rfl
  | cons name names ih =>
    rw [List.map_cons, writtenInParams, ih]
    rfl

/-- The members inside of parameters are written as those in the source. -/
theorem allWrittenAs_paramsFrom (ih : TypesWrittenAs ctx indent room) (i : Nat)
    (params : List Field) :
    AllWrittenAs ctx.config indent (writtenInParams depth (paramsFrom ctx room i params))
      (listMembers (fun f => f.type.deref.members room) params) := by
  induction params generalizing i with
  | nil => exact .nil
  | cons f params rest =>
    rw [paramsFrom_cons, writtenInParams_append, writtenInParams_ofField, listMembers,
      List.flatMap_cons]
    exact ((ih _ _ _).replicate _).append (rest _)

theorem writtenInTypes_replicate (n : Nat) (x : TsType) :
    writtenInTypes depth (List.replicate n x) = (List.replicate n (x.written depth)).flatten := by
  induction n with
  | zero => rfl
  | succ n ih =>
    rw [List.replicate_succ, writtenInTypes, ih]
    rfl

/-- The members inside of results are written as those in the source. -/
theorem allWrittenAs_resultsOf (ih : TypesWrittenAs ctx indent room) (results : List Field) :
    AllWrittenAs ctx.config indent (writtenInTypes depth (resultsOf ctx room results))
      (listMembers (fun f => f.type.members room) results) := by
  induction results with
  | nil => exact .nil
  | cons f results rest =>
    rw [resultsOf_cons, writtenInTypes_append, writtenInTypes_replicate, listMembers,
      List.flatMap_cons]
    exact ((ih _ _ _).replicate _).append rest

/-- The members inside of types in a list are written as those in the source. -/
theorem allWrittenAs_typesOf (ih : TypesWrittenAs ctx indent room) (slot : Slot)
    (xs : List TypeExpr) :
    AllWrittenAs ctx.config indent (writtenInTypes depth (xs.map (TsType.ofExpr ctx room slot)))
      (xs.flatMap (TypeExpr.members room)) := by
  induction xs with
  | nil => exact .nil
  | cons x xs rest => exact (ih _ _ _).append rest

/-! ## Types -/

theorem written_parenIf (enclose : Bool) (x : TsType) :
    (TsType.parenIf enclose x).written depth = x.written depth := by
  cases enclose <;> rfl

theorem written_pointerTo (slot : Slot) (isFunc : Bool) (x : TsType) :
    (TsType.pointerTo slot isFunc x).written depth = x.written depth := by
  unfold TsType.pointerTo
  split
  · rw [written_parenIf, TsType.written, written_parenIf]
  · rfl

theorem written_ofResults (xs : List TsType) :
    (TsType.ofResults xs).written depth = writtenInTypes depth xs := by
  match xs with
  | [] => rfl
  | [x] => exact (List.append_nil _).symm
  | _ :: _ :: _ => rfl

theorem written_ofName (name : String) : (ctx.ofName name).written depth = [] := by
  unfold Context.ofName
  split
  · rfl
  · split <;> rfl

theorem written_ofSelector (x : TypeExpr) (sel : String) :
    (ctx.ofSelector x sel).written depth = [] := by
  unfold Context.ofSelector
  split
  · rfl
  · split <;> rfl

theorem written_ofExpr_name (room : Nat) (slot : Slot) (name : String) :
    (TsType.ofExpr ctx room slot (.name name)).written depth = [] := by
  cases room with
  | zero => rfl
  | succ room => exact written_ofName name

/-- The error that is not returned has no members. -/
theorem written_withoutError (ctx : Context) (room : Nat) (results : List Field) :
    writtenInTypes depth (withoutError results (resultsOf ctx room results)) =
      writtenInTypes depth (resultsOf ctx room results) := by
  unfold withoutError
  split
  · next ends =>
    obtain ⟨init, f, rfl, error⟩ := exists_of_endsInError ends
    obtain ⟨n, hn⟩ : ∃ n, max f.names.length 1 = n + 1 := ⟨max f.names.length 1 - 1, by omega⟩
    rw [resultsOf_append, resultsOf_cons, error, hn, List.replicate_succ']
    show writtenInTypes depth (resultsOf ctx room init ++ (_ ++ [_] ++ [])).dropLast = _
    rw [List.append_nil, ← List.append_assoc, List.dropLast_concat]
    simp only [writtenInTypes_append, writtenInTypes, written_ofExpr_name, resultsOf,
      List.append_nil]
  · rfl

theorem written_ofFunc (slot : Slot) (params : List TsParam) (result : TsType) :
    (TsType.ofFunc slot params result).written depth =
      writtenInParams depth params ++ result.written depth := by
  unfold TsType.ofFunc
  split <;> rfl

/-- Every member inside of a type is written as its member of the source, at any depth. By induction on the
room: a type that is cut off has no members, and the parts of any other have less room. -/
theorem typesWrittenAs (ctx : Context) (indent : String) (room : Nat) :
    TypesWrittenAs ctx indent room := by
  induction room with
  | zero =>
    intro slot depth x
    rw [TsType.ofExpr, TypeExpr.members]
    exact .nil
  | succ room ih =>
    intro slot depth x
    cases x with
    | name n =>
      rw [TsType.ofExpr, written_ofName]
      exact .nil
    | selector x sel =>
      rw [TsType.ofExpr, written_ofSelector]
      exact .nil
    | literal | counted | map | channel | call | composite | unknown => exact .nil
    | pointer x =>
      rw [TsType.ofExpr, written_pointerTo]
      exact ih _ _ x
    | variadic x =>
      rw [TsType.ofExpr]
      split
      · next byte =>
        cases x with
        | name n =>
          cases room <;> exact .nil
        | _ => cases byte
      · rw [TsType.written, written_parenIf]
        exact ih _ _ x
    | array x size =>
      rw [TsType.ofExpr]
      split <;> exact ih _ _ x
    | struct fields => exact allWrittenAs_structMembers ih fields
    | interface methods => exact allWrittenAs_interfaceMembers ih methods
    | paren x => exact ih _ _ x
    | binary x op y => exact (ih _ _ x).append (ih _ _ y)
    | func params results typeParams =>
      rw [TsType.ofExpr, written_ofFunc, written_ofResults, written_withoutError]
      exact (allWrittenAs_paramsFrom ih 0 params).append (allWrittenAs_resultsOf ih results)
    | unary op x =>
      rw [TsType.ofExpr, TypeExpr.members]
      split
      · exact ih _ _ x
      · exact .nil
    | generic x args =>
      rw [TsType.ofExpr, typesOf_eq_map]
      exact (ih _ _ x).append (allWrittenAs_typesOf ih _ args)

/-! ## Declarations -/

/-- The members of a type specification are written as those of its type. -/
theorem typeSpecWrittenAs {spec : TypeSpec} {t : TsDecl}
    (h : TsDecl.ofTypeSpec? ctx spec = some t) :
    AllWrittenAs ctx.config indent t.written ((Decl.typeSpec spec).members ctx.room) := by
  unfold TsDecl.ofTypeSpec? at h
  split at h
  · have all := typesWrittenAs (ctx.within (Field.allNames spec.typeParams)) indent ctx.room
    cases h
    unfold Decl.members
    dsimp only
    cases spec.type with
    | struct fields => exact (allWrittenAs_typesOf all _ _).append (allWrittenAs_structMembers all _)
    | interface methods =>
      exact (allWrittenAs_typesOf all _ _).append (allWrittenAs_interfaceMembers all _)
    | func params results typeParams =>
      have call := all .plain 1 (.func params results typeParams)
      show AllWrittenAs _ _ (TsType.written 1 _ ++ []) _
      rw [List.append_nil]
      exact call
    | _ => exact all .plain 0 _
  · cases h

/-- The members of a function are those inside of its signature. -/
theorem funcWrittenAs {decl : FuncDecl} {t : TsDecl}
    (h : TsDecl.ofDecl ctx (.func decl) = .ok (some t)) :
    AllWrittenAs ctx.config indent t.written ((Decl.func decl).members ctx.room) := by
  unfold Decl.members
  dsimp only
  cases hr : decl.recv with
  | none =>
    have shown : TsDecl.ofFunction? ctx decl = some t := by simpa [TsDecl.ofDecl, hr] using h
    unfold TsDecl.ofFunction? at shown
    split at shown
    · cases shown
      have call := typesWrittenAs (ctx.within (Field.allNames decl.typeParams)) indent ctx.room
        .plain 1 decl.type
      show AllWrittenAs _ _ (TsType.written 1 _ ++ []) _
      rw [List.append_nil]
      exact call
    · cases shown
  | some recv =>
    have shown : TsDecl.ofMethod? ctx decl recv = some t := by simpa [TsDecl.ofDecl, hr] using h
    unfold TsDecl.ofMethod? at shown
    dsimp only at shown
    split at shown
    · cases shown
      have inner := typesWrittenAs (ctx.within (recv.receiver.2 ++ Field.allNames decl.typeParams))
        indent ctx.room .plain 1 decl.type
      have key := Name.propertyKey_ne_empty (ctx.config.methodNames.apply decl.name)
      show AllWrittenAs _ _ (writtenInMembers 1 [_]) _
      rw [writtenInMembers_cons]
      split
      · next empty => exact absurd empty key
      · show AllWrittenAs _ _ (_ :: (_ ++ [])) _
        rw [List.append_nil]
        exact .cons (@writtenAs_method (ctx.within _) _ _ _ _ _ _ rfl rfl rfl rfl) inner
    · cases shown

/-- In a declaration, and likewise in a type, the members of the source are written one after
another, each on a line of its own and under its key; and the key is separated from what follows
unless the member is a method without room for its signature. -/
theorem TsDecl.member_separated_iff (ctx : Context) (indent startModifier : String) :
    (∀ (d : Decl) (t : TsDecl), TsDecl.ofDecl ctx d = .ok (some t) →
      List.Forall₂ (fun w s => Contains (t.text indent startModifier) (w.line indent) ∧
          w.member.key = s.key ctx.config ∧
          (Separated (s.key ctx.config) (w.text indent) ↔ s.lacksSignature = false))
        t.written (d.members ctx.room)) ∧
    ∀ (slot : Slot) (depth : Int) (x : TypeExpr),
      List.Forall₂ (fun w s =>
          Contains ((TsType.ofExpr ctx ctx.room slot x).text indent depth) (w.line indent) ∧
          w.member.key = s.key ctx.config ∧
          (Separated (s.key ctx.config) (w.text indent) ↔ s.lacksSignature = false))
        ((TsType.ofExpr ctx ctx.room slot x).written depth) (x.members ctx.room) := by
  constructor
  · intro d t h
    refine (List.forall₂_and_left _ _).2 ⟨t.contains_line indent startModifier, ?_⟩
    cases d with
    | typeSpec spec => exact typeSpecWrittenAs (by simpa [TsDecl.ofDecl] using h)
    | func decl => exact funcWrittenAs h
    | unknown => cases h
  · intro slot depth x
    refine (List.forall₂_and_left _ _).2 ⟨TsType.contains_line indent depth _, ?_⟩
    exact typesWrittenAs ctx indent ctx.room slot depth x

/-- An interface with a method of no parameters and no results. -/
def plainInterface : Decl :=
  .typeSpec { name := "A", type := .interface [{ names := ["Foo"], type := .func [] [] [] }] }

/-- With room for two levels the signature is written. -/
theorem TsDecl.member_separated_of_room :
    ∃ t, TsDecl.ofDecl { config := { maxDepth := 2 } } plainInterface = .ok (some t) ∧
      List.Forall₂ (fun w s => Contains (t.text "  " "") (w.line "  ") ∧
          w.member.key = s.key { maxDepth := 2 } ∧
          (Separated (s.key { maxDepth := 2 }) (w.text "  ") ↔ s.lacksSignature = false))
        t.written (plainInterface.members 2) :=
  ⟨_, rfl, (TsDecl.member_separated_iff { config := { maxDepth := 2 } } "  " "").1 _ _ rfl⟩

/-- Without any room the name of the method and `any` are written as one word. -/
theorem TsDecl.member_not_separated :
    (Rendering.ofSource { maxDepth := 0 } "type A interface { Foo() }").toOption.map
        Rendering.text =
      some ("type _TygojaDict = \x7b [key:string | number | symbol]: any; \x7d\n\n"
        ++ "interface A \x7b\n  Fooany\n\x7d\n") ∧
    ¬Separated (Name.propertyKey "Foo") "Fooany" := by
  constructor
  · decide +kernel
  · have key : Name.propertyKey "Foo" = "Foo" := by decide +kernel
    have text : TsMember.text "" 0 ⟨[], "Foo", false, false, .cut 0, ""⟩ = "Fooany" := by decide
    rw [key, ← text]
    exact not_separated_of_cut rfl rfl rfl

end Typings
