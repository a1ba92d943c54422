import Typings.Proofs.Brackets.Output
import Typings.Proofs.Lines.Files
import Typings.Session

/-!
# Empty lines separate declarations

The empty lines of a rendered file are those between its parts, and no others: what the file has between
its empty lines is the declaration of the dictionary type and then, in order, each declaration that is
written (`Rendering.blocksOf_ofSource`). Whatever the comments of the source hold, blank lines and lines
of blanks among them, none of them makes an empty line.
-/

namespace Typings

/-- What a text has between its empty lines. -/
def blocksOf (text : String) : List String :=
  ((Text.splitLines text.toList).splitOn []).map fun lines => String.ofList (Text.joinWith ['\n'] lines)

/-- The declaration is written: what it declares is exported, and so is the receiver of a method. -/
def Decl.isWritten : Decl → Bool
  | .typeSpec spec => Name.isVisible spec.name
  | .func decl =>
    match decl.recv with
    | some recv => Name.isVisible decl.name && Name.isVisible recv.receiver.1
    | none => Name.isVisible decl.name
  | .unknown => false

/-! ## Declarations that are written -/

namespace TsDecl

variable {ctx : Context}

theorem isSome_ofDecl {d : Decl} {rendered : Option TsDecl} (h : ofDecl ctx d = .ok rendered) :
    rendered.isSome = d.isWritten := by
  cases d with
  | typeSpec spec =>
    cases h
    rw [ofTypeSpec?, Decl.isWritten]
    split
    · next visible => exact visible.symm
    · next hidden => exact (Bool.eq_false_iff.2 hidden).symm
  | func decl =>
    cases h
    rw [Decl.isWritten]
    cases decl.recv with
    | none =>
      dsimp only
      rw [ofFunction?]
      split
      · next visible => exact visible.symm
      · next hidden => exact (Bool.eq_false_iff.2 hidden).symm
    | some recv =>
      dsimp only
      rw [ofMethod?]
      dsimp only
      split
      · next visible => exact visible.symm
      · next hidden => exact (Bool.eq_false_iff.2 hidden).symm
  | unknown => cases h

/-- Flat declarations are rendered, one after another those that are written. -/
theorem exists_written {counted : Prop} (adds : ctx.config.AddsFlat counted) {ds : List Decl}
    (flat : ∀ d ∈ ds, d.IsFlat counted) :
    ∃ ts, ofDecls ctx ds = .ok ts ∧ (∀ t ∈ ts, t.IsLaid counted ctx.config.startModifier) ∧
      List.Forall₂ (fun d t => ofDecl ctx d = .ok (some t)) (ds.filter Decl.isWritten) ts := by
  induction ds with
  | nil => exact ⟨[], rfl, List.forall_mem_nil _, .nil⟩
  | cons d ds ih =>
    obtain ⟨here, rest⟩ := List.forall_mem_cons.1 flat
    obtain ⟨rendered, first, laid⟩ := laid_ofDecl adds here
    obtain ⟨ts, others, behind, written⟩ := ih rest
    have known := isSome_ofDecl first
    refine ⟨rendered.toList ++ ts, ?_, ?_, ?_⟩
    · rw [ofDecls, first, others]
      rfl
    · exact List.forall_mem_append.2 ⟨fun t mem => laid t (Option.mem_toList.1 mem), behind⟩
    · cases rendered with
      | none =>
        rw [List.filter_cons_of_neg (by rw [← known]; decide)]
        exact written
      | some t =>
        rw [List.filter_cons_of_pos (by rw [← known]; rfl)]
        exact .cons first written

end TsDecl

/-- A session gives the text of the declaration that it renders. -/
theorem Session.exists_decl {config : Config} {d : Decl} {t : TsDecl}
    (h : TsDecl.ofDecl { config := config } d = .ok (some t)) :
    ∃ s, (ofConfig config).decl d = .ok (t.text config.indent config.startModifier, s) := by
  unfold decl
  rw [show (ofConfig config).context = { config := config } from rfl, h]
  exact ⟨_, rfl⟩

/-! ## Blocks -/

namespace Line

/-- The text of lines without the newline that ends the last. -/
def block (indent : String) (ls : List Line) : String :=
  String.ofList (Text.joinWith ['\n'] (ls.map (chars indent)))

theorem block_append_newline (indent : String) {ls : List Line} (some : ls ≠ []) :
    block indent ls ++ "\n" = texts indent ls := by
  apply String.toList_injective
  rw [String.toList_append, block, String.toList_ofList, toList_texts]
  exact Text.joinWith_append_newline fun none => some (List.map_eq_nil_iff.1 none)

theorem map_chars_separated (indent : String) (parts : List (List Line)) :
    (separated parts).map (chars indent) = [[]].intercalate (parts.map (List.map (chars indent))) := by
  induction parts with
  | nil => rfl
  | cons ls parts ih =>
    cases parts with
    | nil => rw [separated, List.map_cons, List.map_nil, List.intercalate_singleton,
        List.intercalate_singleton]
    | cons ks parts =>
      rw [separated, List.intercalate_cons_cons, List.map_append, List.map_append]
      exact (congrArg _ ih).trans List.intercalate_cons_cons.symm

theorem separated_ne_nil {first : List Line} (some : first ≠ []) (parts : List (List Line)) :
    separated (first :: parts) ≠ [] := by
  cases parts with
  | nil =>
    rw [separated, List.intercalate_singleton]
    exact some
  | cons ls parts =>
    rw [separated, List.intercalate_cons_cons, List.append_assoc]
    exact fun none => some (List.append_eq_nil_iff.1 none).1

/-- The blocks of parts with an empty line between neighbours are these parts. -/
theorem blocksOf_separated {indent : String} (blank : '\n' ∉ indent.toList) {first : List Line}
    {parts : List (List Line)} (some : first ≠ [])
    (full : ∀ ls ∈ first :: parts, ∀ l ∈ ls, l.IsFull) :
    blocksOf (block indent (separated (first :: parts))) = (first :: parts).map (block indent) := by
  have lines : ∀ l ∈ (separated (first :: parts)).map (chars indent), '\n' ∉ l := by
    refine List.forall_mem_map.2 (forall_mem_separated List.not_mem_nil fun ls among l mem => ?_)
    exact not_mem_chars blank (full ls among l mem).line
  have apart : ∀ ls ∈ (first :: parts).map (List.map (chars indent)), [] ∉ ls := by
    refine List.forall_mem_map.2 fun ls among mem => ?_
    obtain ⟨l, inside, none⟩ := List.mem_map.1 mem
    exact (full ls among l inside).chars_ne indent none
  rw [blocksOf, block, String.toList_ofList, Text.splitLines_joinWith (fun none =>
    separated_ne_nil some parts (List.map_eq_nil_iff.1 none)) lines, map_chars_separated,
    List.splitOn_intercalate [] apart (by rw [List.map_cons]; exact List.cons_ne_nil _ _),
    List.map_map]
  rfl

end Line

/-! ## Sources -/

theorem forall₂_trans {α β γ : Type} {R : α → β → Prop} {S : β → γ → Prop} {T : α → γ → Prop}
    {as : List α} {bs : List β} {cs : List γ} (h : List.Forall₂ R as bs) (k : List.Forall₂ S bs cs)
    (both : ∀ a b c, R a b → S b c → T a c) : List.Forall₂ T as cs := by
  induction h generalizing cs with
  | nil =>
    cases k
    exact .nil
  | cons first _ ih =>
    cases k with
    | cons second rest => exact .cons (both _ _ _ first second) (ih rest)

theorem Flat.of_line {text : String} (h : '\n' ∉ text.toList) : Flat False text := by
  rintro m (rfl | ⟨no, -⟩)
  · exact h
  · exact no.elim

namespace Rendering

/-- Empty lines separate declarations and nothing else: without the newline at its end, the text that a
source is rendered as has between its empty lines the declaration of the dictionary type and then, in
the order of the source, exactly one block for each declaration that is written, which is the text of
this declaration by itself without the newline at its end. This holds of every indentation on one line,
and so of every number of spaces. -/
theorem blocksOf_ofSource {config : Config} {source : String} {file : File}
    (parsed : File.parse source = .ok file) (indent : '\n' ∉ config.indent.toList)
    (heading : config.heading = "") (startModifier : '\n' ∉ config.startModifier.toList)
    (mappings : ∀ entry ∈ config.mappings.entries, '\n' ∉ entry.2.toList)
    (fieldNames : config.fieldNames = .keep ∨ config.fieldNames = .camel)
    (methodNames : config.methodNames = .keep ∨ config.methodNames = .camel) :
    ∃ r body dictionary blocks, ofSource config source = .ok r ∧ r.text = body ++ "\n" ∧
      dictionaryText config.startModifier = dictionary ++ "\n" ∧
      blocksOf body = dictionary :: blocks ∧
      List.Forall₂ (fun d block => ∃ s, (Session.ofConfig config).decl d = .ok (block ++ "\n", s))
        (file.decls.filter Decl.isWritten) blocks := by
  have adds : config.AddsFlat False := ⟨heading, .of_line startModifier,
    fun entry mem => .of_line (mappings entry mem), fieldNames, methodNames⟩
  have words : ∀ d ∈ file.decls, d.WordsIn (Flat False) :=
    File.wordsIn_of_parse parsed Flat.ofIdent (.of_unmarked (by decide))
  obtain ⟨ts, rendered, laid, written⟩ := @TsDecl.exists_written { config := config } False adds
    file.decls fun d mem => ⟨words d mem, fun _ _ => False.elim⟩
  obtain ⟨r, run, text⟩ := exists_of_ofDecls rendered
  obtain ⟨first, parts, all, lines⟩ := exists_parts_fileText adds laid
  have full := full_of_parts all
  obtain ⟨dictionary, others⟩ := List.forall₂_cons.1 all
  refine ⟨r, Line.block config.indent (Line.separated (first :: parts)), Line.block config.indent first,
    parts.map (Line.block config.indent), ofSource_eq_ok parsed run, ?_, ?_,
    Line.blocksOf_separated indent dictionary.some full, ?_⟩
  · rw [text, Line.block_append_newline _ (Line.separated_ne_nil dictionary.some parts)]
    exact lines config.indent
  · rw [Line.block_append_newline _ dictionary.some]
    exact dictionary.text_eq config.indent
  · refine List.forall₂_map_right_iff.2 (forall₂_trans written (List.forall₂_map_left_iff.1 others) ?_)
    intro d t ls rendered part
    rw [Line.block_append_newline _ part.some, ← part.text_eq]
    exact Session.exists_decl rendered

/-- Comments with empty lines and lines of blanks, empty bodies and a body inside parameters; of five
declarations, a type and a method of it are hidden. -/
theorem blocksOf_ofSource_box :
    let config : Config := { indent := " ", startModifier := "declare" }
    let source := "// Box holds.\n//\n//  \t\n// More.\ntype Box[T any] struct \x7b\n" ++
      "\tIn struct\x7b\x7d // \n\tOn func(x interface\x7b Do() \x7d)\n\x7d\ntype hidden int\nfunc (h hidden) Do() \x7b\x7d\n" ++
      "func (b *Box[T]) Get() T \x7b return b.In \x7d\n/*\n\n*/\nfunc New() \x7b\x7d"
    ∃ file r body dictionary blocks, File.parse source = .ok file ∧ file.decls.length = 5 ∧
      ofSource config source = .ok r ∧ r.text = body ++ "\n" ∧
      dictionaryText config.startModifier = dictionary ++ "\n" ∧
      blocksOf body = dictionary :: blocks ∧ blocks.length = 3 ∧
      List.Forall₂ (fun d block => ∃ s, (Session.ofConfig config).decl d = .ok (block ++ "\n", s))
        (file.decls.filter Decl.isWritten) blocks := by
  intro config source
  have declared : (File.parse source).toOption.map
      (fun file => (file.decls.length, (file.decls.filter Decl.isWritten).length)) = some (5, 3) := by
    decide +kernel
  obtain ⟨file, parsed, counts⟩ := exists_of_toOption_map declared
  obtain ⟨all, written⟩ := Prod.mk.inj counts
  obtain ⟨r, body, dictionary, blocks, run, text, head, split, each⟩ := @blocksOf_ofSource
    config _ _ parsed (by decide) rfl (by decide) (List.forall_mem_nil _) (.inl rfl) (.inl rfl)
  exact ⟨file, r, body, dictionary, blocks, parsed, all, run, text, head, split,
    each.length_eq.symm.trans written, each⟩

end Rendering

end Typings
