import Mathlib.Data.List.Forall2
import Typings.Proofs.Emitter.Decls
import Typings.Proofs.Lines.Declarations
import Typings.Rendering

/-!
# Files are parts of lines with empty lines between them

Each part of a rendered file, the declaration of the dictionary type and then those of the source, is a
number of lines of which none is empty (`IsPart`). An empty line stands between neighbours
(`exists_parts_fileText`). Nothing else of the file depends on the indentation but the margins.
-/

namespace Typings

/-! ## Texts and their lines -/

namespace Text

theorem splitOn_of_not_mem {separator : Char} {cs : List Char} (h : separator ∉ cs) :
    splitOn separator cs = [cs] := by
  induction cs with
  | nil => rfl
  | cons c cs ih =>
    rw [splitOn, if_neg (List.ne_of_not_mem_cons h).symm, ih (List.not_mem_of_not_mem_cons h)]

theorem splitOn_append {separator : Char} {cs : List Char} (h : separator ∉ cs) (rest : List Char) :
    splitOn separator (cs ++ separator :: rest) = cs :: splitOn separator rest := by
  induction cs with
  | nil => exact if_pos rfl
  | cons c cs ih =>
    rw [List.cons_append, splitOn, if_neg (List.ne_of_not_mem_cons h).symm,
      ih (List.not_mem_of_not_mem_cons h)]

/-- Lines that each end in a newline: behind the last is nothing. -/
theorem splitLines_flatMap {lines : List (List Char)} (h : ∀ l ∈ lines, '\n' ∉ l) :
    splitLines (lines.flatMap (· ++ ['\n'])) = lines ++ [[]] := by
  induction lines with
  | nil => rfl
  | cons line lines ih =>
    obtain ⟨first, rest⟩ := List.forall_mem_cons.1 h
    rw [List.flatMap_cons, List.append_assoc, List.singleton_append, splitLines, splitOn_append first,
      List.cons_append]
    exact congrArg _ (ih rest)

/-- Lines with newlines between them. -/
theorem splitLines_joinWith {lines : List (List Char)} (some : lines ≠ []) (h : ∀ l ∈ lines, '\n' ∉ l) :
    splitLines (joinWith ['\n'] lines) = lines := by
  fun_induction joinWith ['\n'] lines with
  | case1 => exact absurd rfl some
  | case2 line => exact splitOn_of_not_mem (h line List.mem_cons_self)
  | case3 line lines more ih =>
    obtain ⟨first, rest⟩ := List.forall_mem_cons.1 h
    rw [List.append_assoc, List.singleton_append, splitLines, splitOn_append first]
    exact congrArg _ (ih more rest)

theorem joinWith_append_newline {lines : List (List Char)} (some : lines ≠ []) :
    joinWith ['\n'] lines ++ ['\n'] = lines.flatMap (· ++ ['\n']) := by
  fun_induction joinWith ['\n'] lines with
  | case1 => exact absurd rfl some
  | case2 line => simp
  | case3 line lines more ih => rw [List.append_assoc, ih more, List.flatMap_cons]

end Text

namespace Line

/-- The characters of the line on a list. -/
def chars (indent : String) (l : Line) : List Char := (l.text indent).toList

/-- A line with nothing on it. -/
def empty : Line := ⟨0, ""⟩

/-- The lines of several parts with an empty line between neighbours. -/
def separated (parts : List (List Line)) : List Line := [empty].intercalate parts

theorem toList_texts (indent : String) (ls : List Line) :
    (texts indent ls).toList = (ls.map (chars indent)).flatMap (· ++ ['\n']) := by
  induction ls with
  | nil => rfl
  | cons l ls ih =>
    have rest : texts indent (l :: ls) = l.text indent ++ "\n" ++ texts indent ls := String.join_cons
    rw [rest, String.toList_append, String.toList_append, ih, List.map_cons, List.flatMap_cons]
    rfl

theorem not_mem_chars {indent : String} (blank : '\n' ∉ indent.toList) {l : Line}
    (h : '\n' ∉ l.content.toList) : '\n' ∉ l.chars indent := by
  have margin : '\n' ∉ (indentText indent l.level).toList := by
    refine @Text.join_of (fun text => '\n' ∉ text.toList) List.not_mem_nil ?_ _ ?_
    · intro a b ha hb
      rw [String.toList_append]
      exact List.not_mem_append ha hb
    · exact fun text mem => List.eq_of_mem_replicate mem ▸ blank
  rw [chars, text, String.toList_append]
  exact List.not_mem_append margin h

theorem IsFull.chars_ne {l : Line} (h : l.IsFull) (indent : String) : l.chars indent ≠ [] := by
  intro none
  rw [chars, text, String.toList_append] at none
  exact h.content_ne (String.toList_eq_nil_iff.1 (List.append_eq_nil_iff.1 none).2)

end Line

/-! ## Parts -/

/-- The text is these lines, none of them empty; if braces count, each has the level of its place, and
all braces are closed behind the last. -/
structure IsPart (counted : Prop) (text : String → String) (ls : List Line) : Prop where
  some : ls ≠ []
  full : ∀ l ∈ ls, l.IsFull
  nested : counted → Line.Nested 0 ls 0
  text_eq : ∀ w, text w = Line.texts w ls

section

variable {counted : Prop}

theorem Stands.exists_isPart {text : String → String} (h : Stands counted 0 text)
    (some : text "" ≠ "") : ∃ ls, IsPart counted text ls := by
  obtain ⟨ls, full, nested, eq⟩ := h.whole .nothing
  simp only [String.empty_append] at eq
  refine ⟨ls, ?_, full, nested, eq⟩
  rintro rfl
  exact some (eq "")

theorem texts_separated {fs : List (String → String)} {parts : List (List Line)}
    (h : List.Forall₂ (IsPart counted) fs parts) (w : String) :
    "\n".intercalate (fs.map fun f => f w) = Line.texts w (Line.separated parts) := by
  induction h with
  | nil => rfl
  | @cons f ls fs parts first rest ih =>
    cases rest with
    | nil =>
      rw [List.map_cons, List.map_nil, String.intercalate_singleton, Line.separated,
        List.intercalate_singleton, first.text_eq]
    | cons =>
      have newline : Line.texts w [Line.empty] = "\n" := rfl
      rw [List.map_cons, List.map_cons, String.intercalate_cons_cons, Line.separated,
        List.intercalate_cons_cons, Line.texts_append, Line.texts_append, newline, ← first.text_eq]
      exact congrArg _ ih

/-- What is true of the empty line and of the lines of all parts. -/
theorem Line.forall_mem_separated {holds : Line → Prop} {parts : List (List Line)} (here : holds .empty)
    (h : ∀ ls ∈ parts, ∀ l ∈ ls, holds l) : ∀ l ∈ separated parts, holds l := by
  induction parts with
  | nil => exact List.forall_mem_nil _
  | cons ls parts ih =>
    obtain ⟨first, rest⟩ := List.forall_mem_cons.1 h
    cases parts with
    | nil =>
      rw [separated, List.intercalate_singleton]
      exact first
    | cons ks parts =>
      rw [separated, List.intercalate_cons_cons, List.append_assoc]
      exact List.forall_mem_append.2 ⟨first, List.forall_mem_cons.2 ⟨here, ih rest⟩⟩

theorem Line.nested_separated {parts : List (List Line)} (h : ∀ ls ∈ parts, Nested 0 ls 0) :
    Nested 0 (separated parts) 0 := by
  induction parts with
  | nil => rfl
  | cons ls parts ih =>
    obtain ⟨first, rest⟩ := List.forall_mem_cons.1 h
    cases parts with
    | nil =>
      rw [separated, List.intercalate_singleton]
      exact first
    | cons ks parts =>
      rw [separated, List.intercalate_cons_cons, List.append_assoc]
      exact nested_append.2 ⟨0, first, nested_append.2 ⟨0, ⟨rfl, rfl⟩, ih rest⟩⟩

/-! ## Files -/

/-- What is true of each part is true of all their lines. -/
theorem full_of_parts {fs : List (String → String)} {parts : List (List Line)}
    (h : List.Forall₂ (IsPart counted) fs parts) : ∀ ls ∈ parts, ∀ l ∈ ls, l.IsFull := by
  induction h with
  | nil => exact List.forall_mem_nil _
  | cons first _ ih => exact List.forall_mem_cons.2 ⟨first.full, ih⟩

theorem nested_of_parts {fs : List (String → String)} {parts : List (List Line)}
    (h : List.Forall₂ (IsPart counted) fs parts) (yes : counted) : ∀ ls ∈ parts, Line.Nested 0 ls 0 := by
  induction h with
  | nil => exact List.forall_mem_nil _
  | cons first _ ih => exact List.forall_mem_cons.2 ⟨first.nested yes, ih⟩

/-- A file without a heading is the declaration of the dictionary type and the declarations that are not
hidden, each of them a part, with an empty line between neighbours. -/
theorem exists_parts_fileText {config : Config} (adds : config.AddsFlat counted) {ds : List TsDecl}
    (laid : ∀ d ∈ ds, d.IsLaid counted config.startModifier) :
    ∃ first parts, List.Forall₂ (IsPart counted)
        ((fun _ => dictionaryText config.startModifier) ::
          ds.map fun d w => d.text w config.startModifier) (first :: parts) ∧
      ∀ w, fileText { config with indent := w } ds = Line.texts w (Line.separated (first :: parts)) := by
  obtain ⟨first, dictionary⟩ := (stands_dictionaryText adds.startModifier).exists_isPart (by
    intro none
    exact absurd (String.append_eq_empty_iff.1 none).2 (by decide))
  obtain ⟨parts, all⟩ : ∃ parts, List.Forall₂ (IsPart counted)
      (ds.map fun d w => TsDecl.text w config.startModifier d) parts := by
    induction ds with
    | nil => exact ⟨[], .nil⟩
    | cons d ds ih =>
      obtain ⟨here, rest⟩ := List.forall_mem_cons.1 laid
      obtain ⟨ls, part⟩ := Stands.exists_isPart here (d.text_ne_empty "" _)
      obtain ⟨parts, others⟩ := ih rest
      exact ⟨ls :: parts, .cons part others⟩
  refine ⟨first, parts, .cons dictionary all, fun w => ?_⟩
  have none : headingText config.heading = none := if_pos adds.heading
  have texts := texts_separated (.cons dictionary all) w
  rw [List.map_cons, List.map_map] at texts
  rw [fileText, none]
  exact texts

end

end Typings
