import Typings.Proofs.Brackets.Comments
import Typings.Proofs.Lines.Laid
import Typings.Proofs.Members.Keys
import Typings.Proofs.Name.Characters

/-!
# Words, comments and options on one line

Names have neither newlines nor braces in them, and neither have the words that are made of them
(`Flat.stable`). The lines of a comment have no newline whatever the comment holds, and no brace if the
comment has none (`CommentGroup.flat_lines`). What the options put in is flat by assumption
(`Config.AddsFlat`).
-/

namespace Typings

/-! ## Words -/

namespace Flat

variable {counted : Prop} {word : String}

/-- A mark is no part of a name, and of none of those the program makes up. -/
theorem foreign {m : Char} (mark : IsMark counted m) :
    Name.Foreign m ∧ m ∉ ['_', 'a', 'r', 'g', '.'] := by
  have all : ['\n', '\x7b', '\x7d'].all (fun m =>
      Name.isForeign m && !(['_', 'a', 'r', 'g', '.'].contains m)) = true := by
    decide +kernel
  have among : m ∈ ['\n', '\x7b', '\x7d'] := by
    rcases mark with rfl | ⟨-, rfl | rfl⟩ <;> decide
  obtain ⟨foreign, apart⟩ := Bool.and_eq_true_iff.1 (List.all_eq_true.1 all m among)
  exact ⟨Name.foreign_of_isForeign foreign, by simpa using apart⟩

/-- Flat texts are stable: names, and what is built of them without a mark, are flat. -/
theorem stable : Name.Stable (Flat counted) :=
  .all fun _ mark => Name.stable_of_foreign (foreign mark).1 (foreign mark).2

/-- A name that is scanned is flat. -/
theorem ofIdent (h : (Lexeme.ident word).IsScanned) : Flat counted word :=
  fun _ mark => Name.not_mem_ident (foreign mark).1 h

theorem empty : Flat counted "" := stable.empty

end Flat

/-! ## Comments -/

section

variable {counted : Prop}

/-- If braces count, no comment of the remark has one. -/
def Remark.IsBraceless (counted : Prop) (remark : Remark) : Prop :=
  counted → ∀ comment ∈ remark.comments, '\x7b' ∉ comment.toList ∧ '\x7d' ∉ comment.toList

/-- The lines of a comment are flat, if braces do not count or it has none. -/
theorem CommentGroup.flat_lines {group : CommentGroup}
    (h : counted → ∀ comment ∈ group.comments, '\x7b' ∉ comment.toList ∧ '\x7d' ∉ comment.toList) :
    ∀ line ∈ group.lines, Flat counted line := by
  intro line among m mark mem
  rcases mark with rfl | ⟨yes, brace⟩
  · exact not_mem_of_mem_lines among mem
  · have other : m ≠ '\n' := by rcases brace with rfl | rfl <;> decide
    obtain ⟨comment, written, inside⟩ := exists_of_mem_lines other among mem
    rcases brace with rfl | rfl
    · exact (h yes comment written).1 inside
    · exact (h yes comment written).2 inside

/-- The lines of a doc are flat, if braces do not count or it has none. -/
theorem flat_docOf {doc : Option CommentGroup} (h : ∀ r ∈ Remark.ofDoc doc, r.IsBraceless counted) :
    ∀ line ∈ docOf doc, Flat counted line := by
  cases doc with
  | none => exact List.forall_mem_nil _
  | some group => exact CommentGroup.flat_lines (h (.doc group) List.mem_cons_self)

/-- A note is flat, if braces do not count or it has none. -/
theorem flat_noteOf {note : Option CommentGroup} (h : ∀ r ∈ Remark.ofNote note, r.IsBraceless counted) :
    Flat counted (noteOf note) := by
  cases note with
  | none => exact .empty
  | some group =>
    have lines := CommentGroup.flat_lines (h (.note group) List.mem_cons_self)
    exact .intercalate (.of_unmarked (by decide)) lines

/-! ## Options -/

/-- The options put no newline into declarations, and no brace if braces count: the start modifier and
the texts of the mappings have none, and names are kept or begun in lower case. No heading stands above
the declarations. -/
structure Config.AddsFlat (counted : Prop) (config : Config) : Prop where
  heading : config.heading = ""
  startModifier : Flat counted config.startModifier
  mappings : ∀ entry ∈ config.mappings.entries, Flat counted entry.2
  fieldNames : config.fieldNames = .keep ∨ config.fieldNames = .camel
  methodNames : config.methodNames = .keep ∨ config.methodNames = .camel

/-- The names in scope do not matter. -/
theorem Config.AddsFlat.within {ctx : Context} (h : ctx.config.AddsFlat counted) (names : List String) :
    (ctx.within names).config.AddsFlat counted := h

/-! ## Source types -/

/-- The words of the type are flat, and so are the comments in it. -/
structure TypeExpr.IsFlat (counted : Prop) (x : TypeExpr) : Prop where
  words : x.WordsIn (Flat counted)
  remarks : ∀ r ∈ x.remarks, r.IsBraceless counted

/-- The same of a field: of its names, its type, and what is said about it. -/
structure Field.IsFlat (counted : Prop) (f : Field) : Prop where
  names : ∀ n ∈ f.names, Flat counted n
  type : f.type.IsFlat counted
  doc : ∀ line ∈ docOf f.doc, Flat counted line
  note : Flat counted (noteOf f.comment)

/-- The same of a declaration. -/
structure Decl.IsFlat (counted : Prop) (d : Decl) : Prop where
  words : d.WordsIn (Flat counted)
  remarks : ∀ r ∈ d.remarks, r.IsBraceless counted

theorem TypeExpr.IsFlat.deref {x : TypeExpr} (h : x.IsFlat counted) : x.deref.IsFlat counted :=
  ⟨h.words.deref, by cases x <;> exact h.remarks⟩

theorem Field.isFlat {fs : List Field} (words : FieldsIn (Flat counted) fs)
    (remarks : ∀ r ∈ remarksOfFields fs, r.IsBraceless counted) : ∀ f ∈ fs, f.IsFlat counted := by
  intro f mem
  obtain ⟨names, type⟩ := fieldsIn_iff.1 words f mem
  obtain ⟨doc, inside, note⟩ := forall_remarksOfFields remarks mem
  exact ⟨names, ⟨type, inside⟩, flat_docOf doc, flat_noteOf note⟩

end

end Typings
