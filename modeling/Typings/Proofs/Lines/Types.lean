import Typings.Proofs.Lines.Words

/-!
# Types are laid out on lines

The level of a line is handed from each part of a type to the next by hand: a body in braces takes its
members one level further in, and all else writes its parts at its own level. As braces open and close
exactly around the members of a body, the level of each line is the number of open braces before it
(`rendersLaid`), however deep bodies stand inside parameters, results, tuples and type arguments.
-/

namespace Typings

section

variable {counted : Prop} {n : Nat}

/-! ## The texts of parts -/

/-- Types with commas between them go on with a line as each of them does. -/
theorem goes_textsOfTypes {xs : List TsType} (h : ∀ x ∈ xs, Goes counted n fun w => x.text w n) :
    Goes counted n fun w => ", ".intercalate (textsOfTypes w n xs) := by
  simp only [textsOfTypes_eq_map]
  exact .intercalate (.of_unmarked (by decide)) h

theorem goes_textsOfParams {ps : List TsParam} (h : ∀ p ∈ ps, Goes counted n fun w => p.text w n) :
    Goes counted n fun w => ", ".intercalate (textsOfParams w n ps) := by
  simp only [textsOfParams_eq_map]
  exact .intercalate (.of_unmarked (by decide)) h

/-- The members of a body stand on lines of their own if each of them does. -/
theorem stands_textOfMembers {ms : List TsMember} (h : ∀ m ∈ ms, Stands counted n fun w => m.block w n) :
    Stands counted n fun w => textOfMembers w n ms := by
  simp only [textOfMembers_eq_join]
  exact .join h

theorem Flat.sign (b : Bool) {mark : String} (h : Flat counted mark) :
    Flat counted (if b then mark else "") := by
  cases b with
  | true => exact h
  | false => exact .empty

/-- A member is on lines of its own: what is said about it, and a line that begins with its key, or with
its type if it has no key. -/
theorem TsMember.stands_block {m : TsMember} (doc : ∀ line ∈ m.doc, Flat counted line)
    (key : Flat counted m.key) (type : Goes counted n fun w => m.type.text w n)
    (keyless : m.key = "" → Starts counted n fun w => m.type.text w n) (note : Flat counted m.note) :
    Stands counted n fun w => m.block w n := by
  have front := (key.append (.sign m.optional (.of_unmarked (by decide) : Flat counted "?"))).append
    (.sign m.colon (.of_unmarked (by decide) : Flat counted ": "))
  obtain ⟨behind, flat, ending⟩ := exists_lineEndText note
  have starts := Starts.prepend front type fun none =>
    keyless (String.append_eq_empty_iff.1 (String.append_eq_empty_iff.1 none).1).1
  have whole := (Stands.docBlock doc).append (.line starts (.flat flat))
  simp only [block, WrittenMember.line, WrittenMember.text, TsMember.text, ending,
    ← String.append_assoc] at whole ⊢
  exact whole

theorem TsParam.goes_text {p : TsParam} (name : Flat counted p.name)
    (type : Goes counted n fun w => p.type.text w n) (note : Flat counted p.note) :
    Goes counted n fun w => p.text w n := by
  have front := ((Flat.of_unmarked (by decide) : Flat counted "...").sign p.spread |>.append name).append
    (.of_unmarked (by decide) : Flat counted ": ")
  exact ((Goes.flat front).append type).append (.paramNote note)

/-! ## The forms of types -/

/-- Lines in braces. -/
theorem Goes.body {u : String → String} (h : Stands counted (n + 1) u) :
    Goes counted n fun w => "\x7b\n" ++ u w ++ indentText w n ++ "\x7d" := by
  refine ⟨fun begun => ?_⟩
  have opening : "\x7b\n" = "\x7b" ++ "\n" := rfl
  have body := (h.whole begun.opening.newline).closing
  simp only [opening, String.append_assoc] at body ⊢
  exact body

namespace TsType

/-- The members in braces stand one level further in, and the closing brace is back at the level. -/
theorem goes_object {ms : List TsMember}
    (h : ∀ m ∈ ms, Stands counted (n + 1) fun w => m.block w (n + 1 : Nat)) :
    Goes counted n fun w => (object ms).text w n := .body (stands_textOfMembers h)

theorem goes_parenIf {x : TsType} (h : Goes counted n fun w => x.text w n) (enclose : Bool) :
    Goes counted n fun w => (parenIf enclose x).text w n := by
  cases enclose with
  | false => exact h
  | true => exact h.between (.of_unmarked (by decide)) (.of_unmarked (by decide))

/-- What stands for a pointer goes on with a line as the type does. -/
theorem goes_pointerTo {x : TsType} (h : Goes counted n fun w => x.text w n) (slot : Slot)
    (isFunc : Bool) : Goes counted n fun w => (pointerTo slot isFunc x).text w n := by
  unfold pointerTo
  split
  · exact goes_parenIf (x := .nullable _) ((goes_parenIf h isFunc).append (.word (by decide))) _
  · exact h

theorem goes_ofResults {xs : List TsType} (h : ∀ x ∈ xs, Goes counted n fun w => x.text w n) :
    Goes counted n fun w => (ofResults xs).text w n := by
  unfold ofResults
  split
  · exact .word (by decide)
  · exact h _ List.mem_cons_self
  · exact (goes_textsOfTypes h).between (.of_unmarked (by decide)) (.of_unmarked (by decide))

/-- A function goes on with a line as its parameters and its result do. -/
theorem goes_ofFunc {slot : Slot} {params : List TsParam} {result : TsType}
    (h : ∀ p ∈ params, Goes counted n fun w => p.text w n)
    (k : Goes counted n fun w => result.text w n) :
    Goes counted n fun w => (ofFunc slot params result).text w n := by
  have inside := goes_textsOfParams h
  unfold ofFunc
  split
  · exact (inside.between (.of_unmarked (by decide)) (.of_unmarked (by decide))).append k
  · exact (inside.between (.of_unmarked (by decide)) (.of_unmarked (by decide))).append k

end TsType

/-! ## Rendering -/

variable {ctx : Context} {room : Nat}

theorem flat_builtin {name text : String} (h : builtin? name = some text) : Flat counted text :=
  .of_unmarked ((by decide : ∀ text ∈ ["string", "boolean", "Error", "number"], Unmarked text) _
    (mem_of_builtin? h))

/-- What a name is rendered as goes on with a line, if mappings bring no line ends in. -/
theorem Context.goes_ofName (adds : ctx.config.AddsFlat counted) {name : String} (h : Flat counted name) :
    Goes counted n fun w => (ctx.ofName name).text w n := by
  unfold ofName
  split
  · exact .flat h
  · split
    · next text found =>
      rcases Option.or_eq_some_iff.1 found with mapped | ⟨-, known⟩
      · exact .flat (adds.mappings _ (Mappings.mem_of_find? mapped))
      · exact .flat (flat_builtin known)
    · exact .flat h

/-- What a selector is rendered as goes on with a line. -/
theorem Context.goes_ofSelector (adds : ctx.config.AddsFlat counted) {x : TypeExpr} {sel : String}
    (qualifier : x.WordsIn (Flat counted)) (h : Flat counted sel) :
    Goes counted n fun w => (ctx.ofSelector x sel).text w n := by
  have stable : Name.Stable (Flat counted) := Flat.stable
  unfold ofSelector
  split
  · exact .word (by decide)
  · split
    · next text found =>
      obtain ⟨key, mem⟩ := Mappings.exists_of_findQualified? found
      exact .flat (adds.mappings _ mem)
    · have front := stable.append (stable.qualifiedName x qualifier) stable.dot
      exact .flat (stable.append front h)

/-- Every flat type, in whatever slot and at whatever level, goes on with the line where it begins, with
so much room. -/
def RendersLaid (counted : Prop) (ctx : Context) (room : Nat) : Prop :=
  ∀ slot (n : Nat) x, TypeExpr.IsFlat counted x →
    Goes counted n fun w => (TsType.ofExpr ctx room slot x).text w n

/-- The members of a field stand on lines of their own. -/
theorem TsMember.stands_ofField {style : NameStyle} (plain : style = .keep ∨ style = .camel) {f : Field}
    (flat : f.IsFlat counted) {optional colon : Bool} {type : TsType}
    (h : Goes counted n fun w => type.text w n) :
    ∀ m ∈ ofField style f optional colon type, Stands counted n fun w => m.block w n := by
  refine List.forall_mem_map.2 fun name visible => ?_
  have word := flat.names name (List.mem_filter.1 visible).1
  refine stands_block flat.doc (Flat.stable.propertyKey (Flat.stable.apply plain word)) h ?_ flat.note
  exact fun none => absurd none (Name.propertyKey_ne_empty _)

theorem TsParam.goes_ofField {i : Nat} {f : Field} (flat : f.IsFlat counted) {type : TsType}
    (h : Goes counted n fun w => type.text w n) :
    ∀ p ∈ ofField i f type, Goes counted n fun w => p.text w n :=
  List.forall_mem_map.2 fun _ placed =>
    goes_text (Flat.stable.of_mem_namesAt flat.names placed) h flat.note

namespace RendersLaid

variable {fs : List Field}

theorem types (h : RendersLaid counted ctx room) {xs : List TypeExpr}
    (flat : ∀ x ∈ xs, x.IsFlat counted) (n : Nat) :
    ∀ x ∈ typesOf ctx room xs, Goes counted n fun w => x.text w n := by
  rw [typesOf_eq_map]
  exact List.forall_mem_map.2 fun x mem => h .part n x (flat x mem)

/-- The members of a struct stand on lines of their own. -/
theorem structMembers (h : RendersLaid counted ctx room) (adds : ctx.config.AddsFlat counted)
    (flat : ∀ f ∈ fs, f.IsFlat counted) :
    ∀ m ∈ structMembers ctx room fs, Stands counted n fun w => m.block w n := by
  induction fs with
  | nil => exact List.forall_mem_nil _
  | cons f fs ih =>
    obtain ⟨first, rest⟩ := List.forall_mem_cons.1 flat
    rw [structMembers_cons]
    refine List.forall_mem_append.2 ⟨?_, ih rest⟩
    exact TsMember.stands_ofField adds.fieldNames first (h .part n _ first.type.deref)

/-- The members of an interface stand on lines of their own. -/
theorem interfaceMembers (h : RendersLaid counted ctx room) (adds : ctx.config.AddsFlat counted)
    (flat : ∀ f ∈ fs, f.IsFlat counted) :
    ∀ m ∈ interfaceMembers ctx room fs, Stands counted n fun w => m.block w n := by
  induction fs with
  | nil => exact List.forall_mem_nil _
  | cons f fs ih =>
    obtain ⟨first, rest⟩ := List.forall_mem_cons.1 flat
    rw [interfaceMembers_cons]
    refine List.forall_mem_append.2 ⟨?_, ih rest⟩
    exact TsMember.stands_ofField adds.methodNames first (h .plain n _ first.type)

theorem params (h : RendersLaid counted ctx room) (flat : ∀ f ∈ fs, f.IsFlat counted) (n i : Nat) :
    ∀ p ∈ paramsFrom ctx room i fs, Goes counted n fun w => p.text w n := by
  induction fs generalizing i with
  | nil => exact List.forall_mem_nil _
  | cons f fs ih =>
    obtain ⟨first, rest⟩ := List.forall_mem_cons.1 flat
    rw [paramsFrom_cons]
    refine List.forall_mem_append.2 ⟨?_, ih rest _⟩
    exact TsParam.goes_ofField first (h .part n _ first.type.deref)

theorem results (h : RendersLaid counted ctx room) (flat : ∀ f ∈ fs, f.IsFlat counted) (n : Nat) :
    ∀ x ∈ resultsOf ctx room fs, Goes counted n fun w => x.text w n := by
  induction fs with
  | nil => exact List.forall_mem_nil _
  | cons f fs ih =>
    obtain ⟨first, rest⟩ := List.forall_mem_cons.1 flat
    rw [resultsOf_cons]
    refine List.forall_mem_append.2 ⟨fun x mem => ?_, ih rest⟩
    rw [List.eq_of_mem_replicate mem]
    exact h .result n _ first.type

/-- The parameters and the result of a function. -/
theorem func (h : RendersLaid counted ctx room) {ps rs tps : List Field}
    (flat : (TypeExpr.func ps rs tps).IsFlat counted) (n : Nat) :
    (∀ p ∈ paramsFrom ctx room 0 ps, Goes counted n fun w => p.text w n) ∧
      Goes counted n fun w =>
        (TsType.ofResults (withoutError rs (resultsOf ctx room rs))).text w n := by
  obtain ⟨words, remarks⟩ := flat
  rw [TypeExpr.remarks] at remarks
  obtain ⟨front, behind⟩ := List.forall_mem_append.1 remarks
  obtain ⟨-, before⟩ := List.forall_mem_append.1 front
  refine ⟨h.params (Field.isFlat words.1 before) n 0, TsType.goes_ofResults fun x mem => ?_⟩
  exact h.results (Field.isFlat words.2 behind) n x (mem_of_mem_withoutError mem)

end RendersLaid

/-- However much room there is, a flat type is laid out on lines: a type without room is `any`, a body
puts its members one level further in, and any other puts the texts of its parts, with less room,
between words. -/
theorem rendersLaid (adds : ctx.config.AddsFlat counted) (room : Nat) : RendersLaid counted ctx room := by
  induction room with
  | zero =>
    intro slot n x flat
    rw [TsType.ofExpr]
    exact .word (by decide)
  | succ room ih =>
    intro slot n x flat
    obtain ⟨words, remarks⟩ := flat
    cases x with
    | pointer x => exact TsType.goes_pointerTo (ih _ n x ⟨words, remarks⟩) slot x.isFunc
    | variadic elt =>
      rw [TsType.ofExpr]
      split
      · exact .word (by decide)
      · exact (TsType.goes_parenIf (ih .part n elt ⟨words, remarks⟩) _).append (.word (by decide))
    | array elt length =>
      have inside : ∀ r ∈ elt.remarks, r.IsBraceless counted := by
        cases length with
        | none => exact remarks
        | some length => exact (List.forall_mem_append.1 remarks).2
      have elt := ih .part n elt ⟨words, inside⟩
      rw [TsType.ofExpr]
      split
      · exact elt.between (.of_unmarked (by decide)) (.of_unmarked (by decide))
      · exact elt.between (.of_unmarked (by decide)) (.of_unmarked (by decide))
    | struct fields =>
      exact TsType.goes_object (ih.structMembers adds (Field.isFlat words remarks))
    | interface methods =>
      exact TsType.goes_object (ih.interfaceMembers adds (Field.isFlat words remarks))
    | name name => exact Context.goes_ofName adds words
    | selector x sel => exact Context.goes_ofSelector adds words.1 words.2
    | map key value => exact (.word (by decide) : Goes counted n fun _ => dictionaryName)
    | literal kind text => exact .flat words
    | counted text => exact .flat words
    | paren x =>
      exact (ih .part n x ⟨words, remarks⟩).between (.of_unmarked (by decide)) (.of_unmarked (by decide))
    | binary x op y =>
      obtain ⟨left, op, right⟩ := words
      rw [TypeExpr.remarks] at remarks
      obtain ⟨before, behind⟩ := List.forall_mem_append.1 remarks
      have x := ih .part n x ⟨left, before⟩
      have y := ih .part n y ⟨right, behind⟩
      exact (((x.append (.word (by decide))).append (.flat op)).append (.word (by decide))).append y
    | func params results typeParams =>
      obtain ⟨params, result⟩ := ih.func ⟨words, remarks⟩ n
      exact TsType.goes_ofFunc params result
    | unary op x =>
      rw [TsType.ofExpr]
      split
      · exact ih .plain n x ⟨words, remarks⟩
      · exact .nothing
    | generic x args =>
      rw [TypeExpr.remarks, remarksOfTypes_eq_flatMap] at remarks
      obtain ⟨before, behind⟩ := List.forall_mem_append.1 remarks
      have base := ih .plain n x ⟨words.1, before⟩
      have flat : ∀ arg ∈ args, arg.IsFlat counted := fun arg mem =>
        ⟨typesIn_iff.1 words.2 arg mem, fun r here => behind r (List.mem_flatMap.2 ⟨arg, mem, here⟩)⟩
      have args := goes_textsOfTypes (ih.types flat n)
      exact ((base.append (.word (by decide))).append args).append (.word (by decide))
    | call fn args => exact (.word (by decide) : Goes counted n fun _ => "undefined")
    | channel dir value => exact (.word (by decide) : Goes counted n fun _ => "undefined")
    | composite type elts => exact (.word (by decide) : Goes counted n fun _ => "undefined")
    | unknown => exact (.word (by decide) : Goes counted n fun _ => "any")

/-- A function behind its name begins with a parenthesis, unless it is cut: it may stand at the beginning
of a line. -/
theorem starts_func (adds : ctx.config.AddsFlat counted) (room : Nat) {ps rs tps : List Field}
    (flat : (TypeExpr.func ps rs tps).IsFlat counted) (n : Nat) :
    Starts counted n fun w => (TsType.ofExpr ctx room .plain (.func ps rs tps)).text w n := by
  cases room with
  | zero =>
    rw [TsType.ofExpr]
    exact .flat (by decide : "any" ≠ "") (.of_unmarked (by decide))
  | succ room =>
    obtain ⟨params, result⟩ := (rendersLaid adds room).func flat n
    have paren : Starts counted n fun _ => "(" := .flat (by decide) (.of_unmarked (by decide))
    exact ((paren.append (goes_textsOfParams params)).append (.word (by decide))).append result

end

end Typings
