import Typings.Proofs.Lines.Types
import Typings.Proofs.Surface.Forms

/-!
# Declarations are whole lines

Every declaration that is written is a number of lines, and outside of all braces again behind the last
(`TsDecl.laid_ofDecl`): its documentation, and a line that begins with what introduces it. None of the
lines is empty, as each begins with a mark, a word or a key, and the only member without a key begins
with its parameters.
-/

namespace Typings

section

variable {counted : Prop}

/-- No margin stands outside of all braces. -/
theorem indentText_outside (indent : String) : indentText indent (0 : Nat) = "" := rfl

theorem Flat.modifierText {modifier : String} (h : Flat counted modifier) :
    Flat counted (modifierText modifier) := by
  unfold Typings.modifierText
  split
  · exact .empty
  · exact h.append (.of_unmarked (by decide))

theorem Flat.typeParamsText {names : List String} (h : ∀ n ∈ names, Flat counted n) :
    Flat counted (typeParamsText names) := by
  unfold Typings.typeParamsText
  split
  · exact .empty
  · have inside := Flat.intercalate (.of_unmarked (by decide) : Flat counted ",") h
    exact ((Flat.of_unmarked (by decide)).append inside).append (.of_unmarked (by decide))

/-- What introduces a declaration, from the word before it to its type parameters, begins a line. -/
theorem starts_head {modifier word name : String} {params : List String} (some : word ≠ "")
    (modifies : Flat counted modifier) (flat : Flat counted word) (named : Flat counted name)
    (names : ∀ n ∈ params, Flat counted n) :
    Starts counted 0 fun _ => modifierText modifier ++ word ++ name ++ typeParamsText params := by
  have head := ((modifies.modifierText.append flat).append named).append (.typeParamsText names)
  refine .flat (fun none => some ?_) head
  have front := (String.append_eq_empty_iff.1 (String.append_eq_empty_iff.1 none).1).1
  exact (String.append_eq_empty_iff.1 front).2

/-- A line outside of all braces, with its documentation above it. -/
theorem Stands.documented {doc : List String} (above : ∀ line ∈ doc, Flat counted line)
    {u v : String → String} (h : Starts counted 0 u) (h' : Goes counted 0 v) :
    Stands counted 0 fun w => Typings.docBlock "" doc ++ (u w ++ v w ++ "\n") := by
  have whole := (Stands.docBlock above).append (.line h h')
  simp only [indentText_outside, String.empty_append] at whole
  exact whole

namespace TsDecl

/-- The declaration is written as whole lines outside of all braces. -/
def IsLaid (counted : Prop) (modifier : String) (d : TsDecl) : Prop :=
  Stands counted 0 fun w => d.text w modifier

variable {modifier name : String} {doc params : List String}

theorem laid_interface (modifies : Flat counted modifier) (above : ∀ line ∈ doc, Flat counted line)
    (word : Flat counted name) (words : ∀ n ∈ params, Flat counted n) {bases : List TsType}
    {members : List TsMember} (extending : ∀ x ∈ bases, Goes counted 0 fun w => x.text w 0)
    (inside : ∀ m ∈ members, Stands counted 1 fun w => m.block w 1) :
    (interface doc name params bases members).IsLaid counted modifier := by
  have extended : Goes counted 0 fun w => extendsText w bases := by
    unfold extendsText
    split
    · exact .nothing
    · exact .append (.word (by decide)) (goes_textsOfTypes extending)
  have head := starts_head (by decide : "interface " ≠ "") modifies (.of_unmarked (by decide)) word words
  have body := Goes.append (.word (by decide) : Goes counted 0 fun _ => " ")
    (.body (n := 0) (stands_textOfMembers inside))
  have whole := Stands.documented above head (extended.append body)
  have opening : " \x7b\n" = " " ++ "\x7b\n" := rfl
  have closing : "\x7d\n" = "\x7d" ++ "\n" := rfl
  simp only [IsLaid, text, opening, closing, indentText_outside, String.empty_append,
    String.append_assoc] at whole ⊢
  exact whole

theorem laid_synonym (modifies : Flat counted modifier) (above : ∀ line ∈ doc, Flat counted line)
    (word : Flat counted name) (words : ∀ n ∈ params, Flat counted n) {type : TsType} {note : String}
    (shown : Goes counted 0 fun w => type.text w 0) (said : Flat counted note) :
    (synonym doc name params type note).IsLaid counted modifier := by
  obtain ⟨behind, flat, ending⟩ := exists_lineEndText said
  have head := starts_head (by decide : "type " ≠ "") modifies (.of_unmarked (by decide)) word words
  have meaning := Goes.append (.word (by decide) : Goes counted 0 fun _ => " = ") shown
  have whole := Stands.documented above head (meaning.append (.flat flat))
  simp only [IsLaid, text, ending, String.append_assoc] at whole ⊢
  exact whole

/-- An interface that is a function. -/
theorem laid_call (modifies : Flat counted modifier) (above : ∀ line ∈ doc, Flat counted line)
    (word : Flat counted name) (words : ∀ n ∈ params, Flat counted n) {lines : List String}
    {key note : String} {type : TsType} (inside : ∀ line ∈ lines, Flat counted line)
    (member : Flat counted key) (shown : Goes counted 1 fun w => type.text w 1)
    (keyless : key = "" → Starts counted 1 fun w => type.text w 1) (said : Flat counted note) :
    (interface doc name params [] [.call lines key type note]).IsLaid counted modifier :=
  laid_interface modifies above word words (List.forall_mem_nil _) <|
    List.forall_mem_singleton.2 (TsMember.stands_block (n := 1) inside member shown keyless said)

variable {ctx : Context}

theorem laid_basesOf (adds : ctx.config.AddsFlat counted) {fields : List Field}
    (flat : ∀ f ∈ fields, f.IsFlat counted) :
    ∀ x ∈ basesOf ctx fields, Goes counted 0 fun w => x.text w 0 := by
  unfold basesOf Field.visibleBases
  rw [List.map_map]
  exact List.forall_mem_map.2 fun f visible =>
    rendersLaid adds ctx.room .base 0 f.type (flat f (List.mem_filter.1 visible).1).type

/-- Whatever form the declaration has. -/
theorem laid_of_rendersTo (adds : ctx.config.AddsFlat counted) {d : Decl} {t : TsDecl}
    (flat : d.IsFlat counted) (form : d.RendersTo ctx t) :
    t.IsLaid counted ctx.config.startModifier := by
  cases form with
  | @struct spec fields visible form =>
    obtain ⟨word, names, words⟩ := flat.words
    obtain ⟨doc, inside, -⟩ := TypeSpec.forall_remarks flat.remarks
    have above := flat_docOf doc
    rw [form] at words inside
    have inner := adds.within (Field.allNames spec.typeParams)
    have fields := Field.isFlat words inside
    exact laid_interface adds.startModifier above word names (laid_basesOf inner fields)
      ((rendersLaid inner ctx.room).structMembers (n := 1) inner fields)
  | @interface spec methods visible form =>
    obtain ⟨word, names, words⟩ := flat.words
    obtain ⟨doc, inside, -⟩ := TypeSpec.forall_remarks flat.remarks
    have above := flat_docOf doc
    rw [form] at words inside
    have inner := adds.within (Field.allNames spec.typeParams)
    have methods := Field.isFlat words inside
    exact laid_interface adds.startModifier above word names (laid_basesOf inner methods)
      ((rendersLaid inner ctx.room).interfaceMembers (n := 1) inner methods)
  | @callable spec _ _ _ visible form =>
    obtain ⟨word, names, words⟩ := flat.words
    obtain ⟨doc, inside, note⟩ := TypeSpec.forall_remarks flat.remarks
    have above := flat_docOf doc
    have behind := flat_noteOf note
    rw [form] at words inside
    have inner := adds.within (Field.allNames spec.typeParams)
    exact laid_call adds.startModifier above word names (List.forall_mem_nil _) .empty
      (rendersLaid inner ctx.room .plain 1 _ ⟨words, inside⟩)
      (fun _ => starts_func inner _ ⟨words, inside⟩ 1) behind
  | synonym =>
    obtain ⟨word, names, words⟩ := flat.words
    obtain ⟨doc, inside, note⟩ := TypeSpec.forall_remarks flat.remarks
    have above := flat_docOf doc
    have behind := flat_noteOf note
    exact laid_synonym adds.startModifier above word names
      (rendersLaid (adds.within _) _ .plain 0 _ ⟨words, inside⟩) behind
  | method owner =>
    obtain ⟨word, names, words, receiver⟩ := flat.words
    obtain ⟨doc, inside⟩ := FuncDecl.forall_remarks flat.remarks
    have above := flat_docOf doc
    obtain ⟨ownerName, params⟩ := Flat.stable.receiver (receiver _ owner)
    have key := Flat.stable.propertyKey (Flat.stable.apply adds.methodNames word)
    exact laid_call adds.startModifier (List.forall_mem_nil _) ownerName params above key
      (rendersLaid (adds.within _) _ .plain 1 _ ⟨words, inside⟩)
      (fun none => absurd none (Name.propertyKey_ne_empty _)) .empty
  | function =>
    obtain ⟨word, names, words, -⟩ := flat.words
    obtain ⟨doc, inside⟩ := FuncDecl.forall_remarks flat.remarks
    have above := flat_docOf doc
    exact laid_call adds.startModifier above word names (List.forall_mem_nil _) .empty
      (rendersLaid (adds.within _) _ .plain 1 _ ⟨words, inside⟩)
      (fun _ => starts_func (adds.within _) _ ⟨words, inside⟩ 1) .empty

/-- A flat declaration is rendered, as whole lines unless it is hidden. -/
theorem laid_ofDecl (adds : ctx.config.AddsFlat counted) {d : Decl} (flat : d.IsFlat counted) :
    ∃ rendered, ofDecl ctx d = .ok rendered ∧
      ∀ t ∈ rendered, t.IsLaid counted ctx.config.startModifier := by
  obtain ⟨rendered, run, forms⟩ := d.exists_rendered ctx flat.words.known
  exact ⟨rendered, run, fun t mem => laid_of_rendersTo adds flat (forms t mem)⟩

end TsDecl

/-- The declaration of the dictionary type is one line; the braces on it match. -/
theorem stands_dictionaryText {modifier : String} (h : Flat counted modifier) :
    Stands counted 0 fun _ => dictionaryText modifier := by
  have head := starts_head (by decide : "type " ≠ "") h (.of_unmarked (by decide))
    (.of_unmarked (by decide) : Flat counted dictionaryName) (List.forall_mem_nil _)
  have braces : Goes counted 0 fun _ => "\x7b [key:string | number | symbol]: any; \x7d" := by
    refine ⟨fun begun => begun.more (by decide) fun _ => ?_⟩
    exact (by decide : openBraces 0 "\x7b [key:string | number | symbol]: any; \x7d".toList = 0)
  have whole := Stands.documented (List.forall_mem_nil _) head
    (Goes.append (.word (by decide) : Goes counted 0 fun _ => " = ") braces)
  have line : " = \x7b [key:string | number | symbol]: any; \x7d\n" =
      " = " ++ ("\x7b [key:string | number | symbol]: any; \x7d" ++ "\n") := rfl
  have undocumented : docBlock "" [] = "" := rfl
  have plain : typeParamsText [] = "" := rfl
  simp only [dictionaryText, line, undocumented, plain, String.empty_append, String.append_empty,
    String.append_assoc] at whole ⊢
  exact whole

end

end Typings
