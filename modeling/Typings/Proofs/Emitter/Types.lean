import Typings.Proofs.Emitter.Writes
import Typings.Proofs.Members.Parts

/-!
# Types as they are written

Every type is written as the text of its rendering with the room that is left (`Writing.writesTypes`):
at a level of `n` types, the room is `n` less than the deepest level. The members of a body, the
parameters and the results of a function are written one by one, each as it is rendered.
-/

namespace Typings

namespace Writing

/-! ## Parts of types -/

section parts

variable {ctx : Context} {level depth : Int} {w : Writing String} {x : TsType}

/-- The text of a type and its issues. -/
abbrev WritesType (w : Writing String) (ctx : Context) (level depth : Int) (x : TsType) : Prop :=
  w.Writes ctx level (x.text ctx.config.indent depth) x.issues

/-- The lines of a member and its issues. -/
abbrev WritesMember (w : Writing String) (ctx : Context) (level depth : Int) (m : TsMember) : Prop :=
  w.Writes ctx level (m.block ctx.config.indent depth) m.type.issues

/-- The text of a parameter and its issues. -/
abbrev WritesParam (w : Writing String) (ctx : Context) (level depth : Int) (p : TsParam) : Prop :=
  w.Writes ctx level (p.text ctx.config.indent depth) p.type.issues

/-- Parentheses around a type are parentheses around its text. -/
theorem text_parenIf (indent : String) (depth : Int) (enclose : Bool) (x : TsType) :
    (TsType.parenIf enclose x).text indent depth = parensIf enclose (x.text indent depth) := by
  cases enclose <;> rfl

theorem issues_parenIf (enclose : Bool) (x : TsType) :
    (TsType.parenIf enclose x).issues = x.issues := by
  cases enclose <;> rfl

/-- What is put around a type for a pointer is put around its text. -/
theorem text_pointerTo (indent : String) (depth : Int) (slot : Slot) (isFunc : Bool) (x : TsType) :
    (TsType.pointerTo slot isFunc x).text indent depth =
      pointerText slot isFunc (x.text indent depth) := by
  unfold TsType.pointerTo pointerText
  split
  · rw [text_parenIf, TsType.text, text_parenIf]
  · rfl

theorem issues_pointerTo (slot : Slot) (isFunc : Bool) (x : TsType) :
    (TsType.pointerTo slot isFunc x).issues = x.issues := by
  unfold TsType.pointerTo
  split
  · rw [issues_parenIf, TsType.issues, issues_parenIf]
  · rfl

/-- The text of a function is put together from those of its parameters and its result. -/
theorem text_ofFunc (indent : String) (depth : Int) (slot : Slot) (ps : List TsParam) (r : TsType) :
    (TsType.ofFunc slot ps r).text indent depth =
      funcText slot.enclosed (ps.map (TsParam.text indent depth)) (r.text indent depth) := by
  unfold TsType.ofFunc funcText
  cases slot.enclosed <;> simp only [Bool.false_eq_true, if_false, if_true, TsType.text,
    textsOfParams_eq_map]

/-- The issues of a function are those of its parameters and then of its result. -/
theorem issues_ofFunc (slot : Slot) (ps : List TsParam) (r : TsType) :
    (TsType.ofFunc slot ps r).issues = ps.flatMap (fun p => p.type.issues) ++ r.issues := by
  unfold TsType.ofFunc
  split <;> rw [TsType.issues, issuesOfParams_eq_flatMap]

/-- The text of a name is the same at any depth. -/
theorem text_ofName (ctx : Context) (indent : String) (depth : Int) (name : String) :
    (ctx.ofName name).text indent depth = (ctx.ofName name).text "" 0 := by
  unfold Context.ofName
  split
  · rfl
  · split <;> rfl

/-- The text of a selector is the same at any depth. -/
theorem text_ofSelector (ctx : Context) (indent : String) (depth : Int) (x : TypeExpr)
    (sel : String) :
    (ctx.ofSelector x sel).text indent depth = (ctx.ofSelector x sel).text "" 0 := by
  unfold Context.ofSelector
  split
  · rfl
  · split <;> rfl

/-- Each visible name of a field gives a member. -/
theorem writes_members (h : w.WritesType ctx level depth x) (style : Config → NameStyle) (f : Field)
    (optional colon : Bool) :
    List.Forall₂ (fun w m => WritesMember w ctx level depth m)
      (members depth style f optional colon w)
      (TsMember.ofField (style ctx.config) f optional colon x) := by
  refine List.forall₂_map_left_iff.2 (List.forall₂_map_right_iff.2 (List.forall₂_same.2 ?_))
  intro name _
  refine Writes.get fun e context _ => ?_
  rw [context]
  have line := h.map fun text => docBlock (indentText ctx.config.indent depth) (docOf f.doc)
    ++ indentText ctx.config.indent depth ++ Name.propertyKey ((style ctx.config).apply name)
    ++ (if optional then "?" else "") ++ (if colon then ": " else "") ++ text
    ++ lineEndText (noteOf f.comment)
  simpa only [WritesMember, TsMember.block, WrittenMember.line, WrittenMember.text, TsMember.text,
    String.append_assoc] using line

/-- Each name of a field gives a parameter, and so does a field without names. -/
theorem writes_params (h : w.WritesType ctx level depth x) (i : Nat) (f : Field) :
    List.Forall₂ (fun w p => WritesParam w ctx level depth p) (params i f w)
      (TsParam.ofField i f x) := by
  refine List.forall₂_map_left_iff.2 (List.forall₂_map_right_iff.2 (List.forall₂_same.2 ?_))
  exact fun name _ => h.map fun text =>
    (if f.type.isVariadic then "..." else "") ++ name ++ ": " ++ text ++ paramNote (noteOf f.comment)

/-- Results are written one by one, a single one without brackets. -/
theorem writes_result {ws : List (Writing String)} {xs : List TsType}
    (h : List.Forall₂ (fun w x => WritesType w ctx level depth x) ws xs) :
    (result ws).WritesType ctx level depth (.ofResults xs) := by
  cases h with
  | nil => exact Writes.pure _
  | cons first rest =>
    cases rest with
    | nil => exact first
    | cons second rest =>
      have items := Writes.inOrder (.cons first (.cons second rest))
      have tuple := items.map fun texts => "[" ++ ", ".intercalate texts ++ "]"
      simp only [TsType.ofResults, WritesType, TsType.text, TsType.issues, textsOfTypes_eq_map,
        issuesOfTypes_eq_flatMap]
      exact tuple

/-- A body is written member by member, one level deeper. -/
theorem writes_body {ws : List (Writing String)} {ms : List TsMember}
    (h : List.Forall₂ (fun w m => WritesMember w ctx level (depth + 1) m) ws ms) :
    (body depth ws).WritesType ctx level depth (.object ms) := by
  have lines := (Writes.inOrder h).bind (f := fun texts => do
    let indent ← indent
    pure ("\x7b\n" ++ String.join texts ++ indentText indent depth ++ "\x7d")) (Writes.indent.map _)
  simp only [WritesType, TsType.text, TsType.issues, textOfMembers_eq_join,
    issuesOfMembers_eq_flatMap]
  rwa [List.append_nil] at lines

end parts

/-! ## Types -/

section types

variable {ctx : Context} {level : Int} {room : Nat}

/-- Types are written as they are rendered with so much room. -/
def WritesTypes (ctx : Context) (level : Int) (room : Nat) : Prop :=
  ∀ depth slot x, (type depth slot x).WritesType ctx level depth (.ofExpr ctx room slot x)

theorem structFields_cons (depth : Int) (f : Field) (fs : List Field) :
    structFields depth (f :: fs) =
      members depth Config.fieldNames f f.type.isPointer true (type depth .part f.type.deref)
        ++ structFields depth fs := by
  obtain ⟨names, type, doc, comment, tag⟩ := f
  cases type <;> rfl

theorem funcParams_cons (depth : Int) (i : Nat) (f : Field) (fs : List Field) :
    funcParams depth i (f :: fs) =
      params i f (type depth .part f.type.deref) ++ funcParams depth (i + 1) fs := by
  obtain ⟨names, type, doc, comment, tag⟩ := f
  cases type <;> rfl

namespace WritesTypes

/-- Types in a list are written one by one, in order. -/
theorem types (h : WritesTypes ctx level room) (depth : Int) (xs : List TypeExpr) :
    List.Forall₂ (fun w x => WritesType w ctx level depth x) (Writing.types depth xs)
      (typesOf ctx room xs) := by
  induction xs with
  | nil => exact .nil
  | cons x xs ih => exact .cons (h depth .part x) ih

/-- The fields of a struct are written as its members, in order. -/
theorem structFields (h : WritesTypes ctx level room) (depth : Int) (fs : List Field) :
    List.Forall₂ (fun w m => WritesMember w ctx level depth m) (Writing.structFields depth fs)
      (structMembers ctx room fs) := by
  induction fs with
  | nil => exact .nil
  | cons f fs ih =>
    rw [structFields_cons, structMembers_cons]
    exact List.rel_append (writes_members (h depth .part f.type.deref) _ _ _ _) ih

/-- The fields of an interface are written as its members, in order. -/
theorem interfaceFields (h : WritesTypes ctx level room) (depth : Int) (fs : List Field) :
    List.Forall₂ (fun w m => WritesMember w ctx level depth m) (Writing.interfaceFields depth fs)
      (interfaceMembers ctx room fs) := by
  induction fs with
  | nil => exact .nil
  | cons f fs ih =>
    obtain ⟨names, type, doc, comment, tag⟩ := f
    exact List.rel_append (writes_members (h depth .plain type) _ _ _ _) ih

/-- Parameters are written in order, numbered from where the list begins. -/
theorem funcParams (h : WritesTypes ctx level room) (depth : Int) (i : Nat) (fs : List Field) :
    List.Forall₂ (fun w p => WritesParam w ctx level depth p) (Writing.funcParams depth i fs)
      (paramsFrom ctx room i fs) := by
  induction fs generalizing i with
  | nil => exact .nil
  | cons f fs ih =>
    rw [funcParams_cons, paramsFrom_cons]
    exact List.rel_append (writes_params (h depth .part f.type.deref) i f) (ih (i + 1))

/-- Results are written in order. -/
theorem funcResults (h : WritesTypes ctx level room) (depth : Int) (fs : List Field) :
    List.Forall₂ (fun w x => WritesType w ctx level depth x) (Writing.funcResults depth fs)
      (resultsOf ctx room fs) := by
  induction fs with
  | nil => exact .nil
  | cons f fs ih =>
    obtain ⟨names, type, doc, comment, tag⟩ := f
    refine List.rel_append ?_ ih
    generalize max names.length 1 = n
    induction n with
    | zero => exact .nil
    | succ n more => exact .cons (h depth .result type) more

/-- The results that are returned: all but an error at the end. -/
theorem resultsKept (h : WritesTypes ctx level room) (depth : Int) (fs : List Field) :
    List.Forall₂ (fun w x => WritesType w ctx level depth x)
      (if endsInError fs then (Writing.funcResults depth fs).dropLast
        else Writing.funcResults depth fs)
      (withoutError fs (resultsOf ctx room fs)) := by
  have all := h.funcResults depth fs
  unfold withoutError
  split
  · rw [List.dropLast_eq_take, List.dropLast_eq_take, all.length_eq]
    exact List.forall₂_take _ all
  · exact all

end WritesTypes

/-- Every type is written as it is rendered with the room that the level leaves. The induction is on
that room. -/
theorem writesTypes (ctx : Context) (level : Int) (room : Nat)
    (left : (ctx.config.maxDepth - level).toNat = room) : WritesTypes ctx level room := by
  induction room generalizing level with
  | zero =>
    intro depth slot x
    have full : ctx.config.maxDepth ≤ level := by omega
    cases x <;> exact Writes.cut full
  | succ room ih =>
    have further : level < ctx.config.maxDepth := by omega
    have parts : WritesTypes ctx (level + 1) room := ih _ (by omega)
    intro depth slot x
    cases x with
    | pointer x =>
      refine Writes.nested further ?_
      rw [TsType.ofExpr, text_pointerTo, issues_pointerTo]
      exact (parts depth _ x).map _
    | variadic elt =>
      refine Writes.nested further ?_
      rw [TsType.ofExpr]
      split
      · exact Writes.pure _
      · rw [TsType.text, TsType.issues, text_parenIf, issues_parenIf]
        exact (parts depth .part elt).map fun text => parensIf elt.isFunc text ++ "[]"
    | array elt length =>
      refine Writes.nested further ?_
      have element := (parts depth .part elt).map fun text =>
        (if elt.isNamed "byte" && !slot.extending then "string|" else "") ++ "Array<" ++ text ++ ">"
      rw [TsType.ofExpr]
      split
      · next bytes =>
        rw [TsType.text, TsType.issues, ← show "string|" ++ "Array<" = "string|Array<" from rfl]
        simpa only [bytes, if_true] using element
      · next other =>
        rw [TsType.text, TsType.issues]
        simpa only [other, Bool.false_eq_true, if_false, String.empty_append] using element
    | struct fields => exact Writes.nested further (writes_body (parts.structFields _ fields))
    | interface methods => exact Writes.nested further (writes_body (parts.interfaceFields _ methods))
    | name name =>
      refine Writes.nested further ?_
      rw [TsType.ofExpr, text_ofName]
      exact Writes.leaf
    | selector x sel =>
      refine Writes.nested further ?_
      rw [TsType.ofExpr, text_ofSelector]
      exact Writes.leaf
    | paren x => exact Writes.nested further ((parts depth .part x).map _)
    | binary x op y =>
      refine Writes.nested further ?_
      exact (parts depth .part x).bind ((parts depth .part y).map _)
    | func ps rs tps =>
      refine Writes.nested further ?_
      rw [TsType.ofExpr, text_ofFunc, issues_ofFunc]
      have result := writes_result (parts.resultsKept depth rs)
      exact (Writes.inOrder (parts.funcParams depth 0 ps)).bind (result.map _)
    | unary op x =>
      refine Writes.nested further ?_
      rw [TsType.ofExpr]
      split
      · exact parts depth .plain x
      · exact (Writes.report _).map _
    | generic x args =>
      refine Writes.nested further ?_
      rw [TsType.ofExpr, TsType.text, TsType.issues, textsOfTypes_eq_map, issuesOfTypes_eq_flatMap]
      exact (parts depth .plain x).bind ((Writes.inOrder (parts.types depth args)).map _)
    | map _ _ | literal _ _ | counted _ | call _ _ | channel _ _ | composite _ _ | unknown =>
      exact Writes.nested further (Writes.pure _)

end types

end Writing

end Typings
