import Typings.Proofs.Emitter.Types

/-!
# Declarations as they are written

Every declaration of a known form is written (`Emitter.render_eq`): a text and the issues met on the
way to it, with the level and the scope as they were. Outside of all types it is the text of the
rendered declaration, so that an emitter and a session say the same (`Emitter.render_session`).
-/

namespace Typings

namespace Writing

/-! ## Declarations -/

section declarations

variable {ctx : Context} {level : Int} {room : Nat}

/-- The text of a declaration and its issues, or nothing. -/
def WritesDecl (w : Writing String) (ctx : Context) (level : Int) (d : Option TsDecl) : Prop :=
  w.Writes ctx level ((d.map (TsDecl.text ctx.config.indent ctx.config.startModifier)).getD "")
    ((d.map TsDecl.issues).getD [])

theorem writesDecl_none : WritesDecl (pure "") ctx level none := Writes.pure ""

theorem writes_interface {bs ms : List (Writing String)} {bases : List TsType}
    {members : List TsMember} (doc : List String) (name : String) (typeParams : List String)
    (hb : List.Forall₂ (fun w x => WritesType w ctx level 0 x) bs bases)
    (hm : List.Forall₂ (fun w m => WritesMember w ctx level 1 m) ms members) :
    (interface doc name typeParams bs ms).WritesDecl ctx level
      (some (.interface doc name typeParams bases members)) := by
  have none_iff : (bases.map (TsType.text ctx.config.indent 0)).isEmpty = bases.isEmpty := by
    cases bases <;> rfl
  simp only [WritesDecl, Option.map_some, Option.getD_some, TsDecl.text, TsDecl.issues, extendsText,
    textsOfTypes_eq_map, textOfMembers_eq_join, issuesOfTypes_eq_flatMap,
    issuesOfMembers_eq_flatMap]
  refine (Writes.inOrder hb).bind ?_
  rw [← List.append_nil (members.flatMap _)]
  refine (Writes.inOrder hm).bind (Writes.get fun e context _ => ?_)
  rw [context, none_iff]
  exact Writes.pure _

/-- The line of a function in an interface. -/
theorem writes_call (h : WritesTypes ctx level room) (doc : List String) (key : Config → String)
    (x : TypeExpr) (note : String) :
    List.Forall₂ (fun w m => WritesMember w ctx level 1 m) [call doc key x note]
      [.call doc (key ctx.config) (.ofExpr ctx room .plain x) note] := by
  refine .cons (Writes.get fun e context _ => ?_) .nil
  rw [context]
  have line := (h 1 .plain x).map fun text => docBlock (indentText ctx.config.indent 1) doc
    ++ indentText ctx.config.indent 1 ++ key ctx.config ++ text ++ lineEndText note
  simpa only [WritesMember, TsMember.block, WrittenMember.line, WrittenMember.text, TsMember.text,
    TsMember.call, String.append_assoc, Bool.false_eq_true, if_false, String.empty_append] using line

theorem writes_synonym (h : WritesTypes ctx level room) (doc : List String) (name : String)
    (typeParams : List String) (x : TypeExpr) (note : String) :
    (synonym doc name typeParams x note).WritesDecl ctx level
      (some (.synonym doc name typeParams (.ofExpr ctx room .plain x) note)) := by
  refine Writes.get fun e context _ => ?_
  rw [context]
  exact (h 0 .plain x).map _

theorem writes_bases (h : WritesTypes ctx level room) (fs : List Field) :
    List.Forall₂ (fun w x => WritesType w ctx level 0 x) ((Field.visibleBases fs).map (type 0 .base))
      ((Field.visibleBases fs).map (.ofExpr ctx room .base)) :=
  List.forall₂_map_left_iff.2 (List.forall₂_map_right_iff.2
    (List.forall₂_same.2 fun x _ => h 0 .base x))

/-- Outside of all types there is all the room. -/
theorem exists_room (ctx : Context) (level : Int) :
    ∃ room, WritesTypes ctx level room ∧ (level = 0 → room = ctx.room) :=
  ⟨_, writesTypes ctx level _ rfl, fun outside => by rw [outside, Int.sub_zero, Context.room]⟩

/-- A type specification is written; outside of all types, it is written as it is rendered. -/
theorem writes_typeSpec (ctx : Context) (level : Int) (spec : TypeSpec) :
    ∃ d, (typeSpec spec).WritesDecl ctx level d ∧ (level = 0 → d = TsDecl.ofTypeSpec? ctx spec) := by
  obtain ⟨name, type, typeParams, doc, comment, isAlias⟩ := spec
  unfold typeSpec TsDecl.ofTypeSpec?
  split
  · obtain ⟨room, types, outside⟩ := exists_room (ctx.within (Field.allNames typeParams)) level
    cases type with
    | struct fields =>
      exact ⟨_, Writes.inScope (writes_interface _ _ _ (writes_bases types fields)
        (types.structFields 1 fields)), fun h => by rw [outside h]; rfl⟩
    | interface methods =>
      exact ⟨_, Writes.inScope (writes_interface _ _ _ (writes_bases types methods)
        (types.interfaceFields 1 methods)), fun h => by rw [outside h]; rfl⟩
    | func ps rs tps =>
      exact ⟨_, Writes.inScope (writes_interface _ _ _ .nil (writes_call types _ _ _ _)),
        fun h => by rw [outside h]⟩
    | _ => exact ⟨_, Writes.inScope (writes_synonym types _ _ _ _ _), fun h => by rw [outside h]⟩
  · exact ⟨none, writesDecl_none, fun _ => rfl⟩

/-- A method in the interface of its receiver. -/
theorem writes_method (ctx : Context) (level : Int) (decl : FuncDecl) (recv : Field)
    (given : decl.recv = some recv) :
    ∃ d, (func decl).WritesDecl ctx level d ∧ (level = 0 → d = TsDecl.ofMethod? ctx decl recv) := by
  unfold func TsDecl.ofMethod?
  rw [given]
  by_cases visible : Name.isVisible decl.name
  · by_cases named : Name.isVisible recv.receiver.1
    · obtain ⟨room, types, outside⟩ :=
        exists_room (ctx.within (recv.receiver.2 ++ Field.allNames decl.typeParams)) level
      simp only [visible, named, Bool.and_self, if_true]
      exact ⟨_, Writes.inScope (writes_interface _ _ _ .nil (writes_call types _ _ _ _)),
        fun h => by rw [outside h]⟩
    · simp only [visible, named, Bool.and_false, Bool.false_eq_true, if_true, if_false]
      exact ⟨none, writesDecl_none, fun _ => rfl⟩
  · simp only [visible, Bool.false_and, Bool.false_eq_true, if_false]
    exact ⟨none, writesDecl_none, fun _ => rfl⟩

/-- A function as an interface that can be called. -/
theorem writes_function (ctx : Context) (level : Int) (decl : FuncDecl) (given : decl.recv = none) :
    ∃ d, (func decl).WritesDecl ctx level d ∧ (level = 0 → d = TsDecl.ofFunction? ctx decl) := by
  unfold func TsDecl.ofFunction?
  rw [given]
  split
  · obtain ⟨room, types, outside⟩ := exists_room (ctx.within (Field.allNames decl.typeParams)) level
    exact ⟨_, Writes.inScope (writes_interface _ _ _ .nil (writes_call types _ _ _ _)),
      fun h => by rw [outside h]⟩
  · exact ⟨none, writesDecl_none, fun _ => rfl⟩

end declarations

end Writing

namespace Emitter

/-- Every known declaration is written: some text, the issues met, and nothing else changes. Outside of
all types it is written as it is rendered. -/
theorem render_eq (e : Emitter) {d : Decl} (known : d ≠ .unknown) :
    ∃ rendered : Option TsDecl,
      e.render d = .ok ((rendered.map (TsDecl.text e.context.config.indent
        e.context.config.startModifier)).getD "", e.note ((rendered.map TsDecl.issues).getD []))
      ∧ (e.level = 0 → TsDecl.ofDecl e.context d = .ok rendered) := by
  cases d with
  | typeSpec spec =>
    obtain ⟨rendered, writes, outside⟩ := Writing.writes_typeSpec e.context e.level spec
    exact ⟨rendered, congrArg Except.ok (writes e rfl rfl), fun h => congrArg Except.ok (outside h).symm⟩
  | func decl =>
    cases given : decl.recv with
    | some recv =>
      obtain ⟨rendered, writes, outside⟩ := Writing.writes_method e.context e.level decl recv given
      refine ⟨rendered, congrArg Except.ok (writes e rfl rfl), fun h => ?_⟩
      rw [outside h, TsDecl.ofDecl, given]
    | none =>
      obtain ⟨rendered, writes, outside⟩ := Writing.writes_function e.context e.level decl given
      refine ⟨rendered, congrArg Except.ok (writes e rfl rfl), fun h => ?_⟩
      rw [outside h, TsDecl.ofDecl, given]
  | unknown => exact absurd rfl known

/-- Outside of all types, a declaration is written as it is rendered, or is refused. -/
theorem render_outside (e : Emitter) (outside : e.level = 0) (d : Decl) :
    e.render d = (TsDecl.ofDecl e.context d).map fun rendered =>
      ((rendered.map (TsDecl.text e.context.config.indent e.context.config.startModifier)).getD "",
        e.note ((rendered.map TsDecl.issues).getD [])) := by
  by_cases known : d = .unknown
  · rw [known]
    rfl
  · obtain ⟨rendered, written, eq⟩ := e.render_eq known
    rw [written, eq outside]
    rfl

/-- An emitter and a session say the same of a declaration. -/
theorem render_session (e : Emitter) (outside : e.level = 0) (d : Decl) :
    (e.render d).map (fun written => (written.1, written.2.toSession)) = e.toSession.decl d := by
  rw [e.render_outside outside, Session.decl]
  cases TsDecl.ofDecl e.toSession.context d with
  | error => rfl
  | ok rendered => cases rendered <;> rfl

end Emitter

/-! ## Files -/

/-- A rendered declaration is never written as nothing. -/
theorem TsDecl.text_ne_empty (indent startModifier : String) (d : TsDecl) :
    d.text indent startModifier ≠ "" := by
  cases d <;> simp [TsDecl.text, String.append_eq_empty_iff]

namespace Emitter

/-- Declarations one after another are written as they are rendered. -/
theorem renderAll_outside (e : Emitter) (outside : e.level = 0) (ds : List Decl) :
    e.renderAll ds = (TsDecl.ofDecls e.context ds).map fun rendered =>
      (rendered.map (TsDecl.text e.context.config.indent e.context.config.startModifier),
        e.note (rendered.flatMap TsDecl.issues)) := by
  induction ds generalizing e with
  | nil => exact congrArg (fun e => Except.ok ([], e)) e.note_nil.symm
  | cons d ds ih =>
    rw [renderAll, TsDecl.ofDecls, e.render_outside outside]
    cases TsDecl.ofDecl e.context d with
    | error => rfl
    | ok first =>
      have behind := ih (e.note ((first.map TsDecl.issues).getD [])) outside
      rw [show (e.note ((first.map TsDecl.issues).getD [])).context = e.context from rfl] at behind
      simp only [Except.map, Except.bind, bind, behind]
      cases TsDecl.ofDecls e.context ds with
      | error => rfl
      | ok rest =>
        cases first with
        | none => simp [note_nil]
        | some first => simp [TsDecl.text_ne_empty, note_append]

/-- A file written by one emitter is the rendered file. -/
theorem file_eq (config : Config) (ds : List Decl) : file config ds = Rendering.ofDecls config ds := by
  rw [file, Rendering.ofDecls, renderAll_outside _ rfl,
    show (ofConfig config).context = ({ config := config } : Context) from rfl]
  cases TsDecl.ofDecls { config := config } ds with
  | error => rfl
  | ok rendered => rfl

end Emitter

end Typings
