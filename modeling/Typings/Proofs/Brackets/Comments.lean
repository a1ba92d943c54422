import Typings.Proofs.Attached.Once
import Typings.Proofs.Brackets.Nested
import Typings.Proofs.Comments.Surrounded
import Typings.Proofs.Contained.Sources
import Typings.TsType.OfExpr
import Typings.TsType.Text

/-!
# Remarks without brackets

The remarks of what is parsed are made of the comments of the source
(`Parser.Attaches.exists_of_mem_remarks`), and the lines of a comment have no characters of their own
(`CommentGroup.exists_of_mem_lines`). So where no comment has a bracket, no line of documentation has
one.
-/

namespace Typings

/-! ## The characters of a comment group -/

namespace CommentGroup

theorem mem_of_mem_dropEnding {ending cs : List Char} {c : Char} (mem : c ∈ dropEnding ending cs) :
    c ∈ cs := by
  unfold dropEnding at mem
  split at mem
  · exact List.mem_of_mem_take mem
  · exact mem

/-- What is left of a comment has the characters of the comment. -/
theorem mem_of_mem_stripMarkers {cs piece : List Char} {c : Char} (among : piece ∈ stripMarkers cs)
    (mem : c ∈ piece) : c ∈ cs := by
  unfold stripMarkers at among
  split at among
  · rw [List.mem_singleton.1 among] at mem
    exact List.mem_append_right ['/', '/', ' '] mem
  · rw [List.mem_singleton.1 among] at mem
    exact List.mem_append_right ['/', '/'] mem
  · exact List.mem_append_right ['/', '*'] (mem_of_mem_dropEnding (Text.mem_of_mem_splitOn among mem))
  · rw [List.mem_singleton.1 among] at mem
    exact mem

/-- Newlines apart, the characters of the lines are those of the comments. -/
theorem exists_of_mem_lines {group : CommentGroup} {line : String} {c : Char} (other : c ≠ '\n')
    (among : line ∈ group.lines) (mem : c ∈ line.toList) :
    ∃ comment ∈ group.comments, c ∈ comment.toList := by
  unfold lines at among
  split at among
  · cases among
  · obtain ⟨chars, split, rfl⟩ := List.mem_map.1 among
    rw [String.toList_ofList] at mem
    have apart : c ∉ ['\n'] := fun newline => other (List.mem_singleton.1 newline)
    obtain ⟨piece, inside, mem⟩ := Text.mem_of_mem_joinWith apart (Text.mem_of_mem_splitOn split mem)
    obtain ⟨whole, said, rfl⟩ := List.mem_map.1 (mem_of_mem_trimEmpty inside)
    obtain ⟨comment, written, stripped⟩ := List.mem_flatMap.1 said
    exact ⟨comment, written, mem_of_mem_stripMarkers stripped (Text.mem_of_mem_dropRightWhile mem)⟩

end CommentGroup

/-! ## Remarks -/

/-- No comment of the remark has a bracket. -/
def Remark.Bracketless (remark : Remark) : Prop :=
  ∀ comment ∈ remark.comments, Typings.Bracketless comment

/-- Comments without brackets have lines without brackets. -/
theorem CommentGroup.bracketless_lines {group : CommentGroup}
    (h : ∀ comment ∈ group.comments, Bracketless comment) : ∀ line ∈ group.lines, Bracketless line := by
  have newline : '\n' ∉ bracketChars := by decide
  intro line among m bracket mem
  have other : m ≠ '\n' := fun same => newline (same ▸ bracket)
  obtain ⟨comment, written, inside⟩ := exists_of_mem_lines other among mem
  exact h comment written m bracket inside

/-- Documentation from comments without brackets has none. -/
theorem bracketless_docOf {doc : Option CommentGroup} (h : ∀ r ∈ Remark.ofDoc doc, r.Bracketless) :
    ∀ line ∈ docOf doc, Bracketless line := by
  cases doc with
  | none => exact List.forall_mem_nil _
  | some group => exact CommentGroup.bracketless_lines (h (.doc group) List.mem_cons_self)

/-- A note from a comment without brackets has none. -/
theorem bracketless_noteOf {note : Option CommentGroup} (h : ∀ r ∈ Remark.ofNote note, r.Bracketless) :
    Bracketless (noteOf note) := by
  cases note with
  | none => exact .empty
  | some group =>
    have lines := CommentGroup.bracketless_lines (h (.note group) List.mem_cons_self)
    exact .intercalate (by decide) lines

/-! ## Comments as they are written -/

/-- Escaping the end of a comment brings no bracket in. -/
theorem Bracketless.escapeEnd {text : String} (h : Bracketless text) :
    Bracketless (String.ofList (escapeEnd text.toList)) := by
  have backslash : '\\' ∉ bracketChars := by decide
  intro m bracket mem
  rw [String.toList_ofList] at mem
  have other : m ≠ '\\' := fun same => backslash (same ▸ bracket)
  exact h m bracket (mem_of_mem_escapeEnd other mem)

theorem bracketless_indentText {indent : String} (blank : Bracketless indent) (depth : Int) :
    Bracketless (indentText indent depth) :=
  .join fun _ mem => List.eq_of_mem_replicate mem ▸ blank

/-- A block of documentation has no bracket, if its lines have none. -/
theorem bracketless_docBlock {margin : String} (blank : Bracketless margin) {lines : List String}
    (h : ∀ line ∈ lines, Bracketless line) : Bracketless (docBlock margin lines) := by
  have line : ∀ line ∈ lines, Bracketless (margin ++ docLine line) := by
    intro line mem
    refine blank.append ?_
    unfold docLine
    split
    · decide
    · exact (Bracketless.append (by decide) (h line mem).escapeEnd).append (by decide)
  unfold docBlock
  split
  · exact .empty
  · refine (((blank.append (by decide)).append ?_).append blank).append (by decide)
    exact .join (List.forall_mem_map.2 line)

/-- A comment behind a parameter is sealed. -/
theorem sealed_paramNote {note : String} (h : Bracketless note) : Sealed (paramNote note) := by
  unfold paramNote
  split
  · exact .empty
  · have front := Bracketless.append (by decide : Bracketless " /* ") h.escapeEnd
    exact front.closed.append_sealed (by decide) (by decide)

/-- A comment at the end of a line is sealed. -/
theorem sealed_lineEndText {note : String} (h : Bracketless note) : Sealed (lineEndText note) := by
  unfold lineEndText
  split
  · decide
  · have front := Bracketless.append (by decide : Bracketless " // ") h
    exact front.closed.append_sealed (by decide) (by decide)

theorem lineEndText_ne_empty (note : String) : lineEndText note ≠ "" := by
  unfold lineEndText
  split
  · decide
  · intro none
    have chars := congrArg String.toList none
    rw [String.toList_append] at chars
    exact absurd (List.append_eq_nil_iff.1 chars).2 (by decide)

/-! ## What is parsed -/

namespace Parser

variable {α : Type} {p : Parser α} {remarks : α → List Remark}

/-- The remarks in what is parsed are made of comments of the source. -/
theorem Attaches.exists_of_mem_remarks (h : Attaches false [] p remarks) {source : String} {x : α}
    (run : Parser.run p source = .ok x) {layout : Layout} (scanned : Layout.ofSource source = .ok layout)
    {r : Remark} (remark : r ∈ remarks x) {text : String} (mem : text ∈ r.comments) :
    ∃ m ∈ layout.comments, m.text = text := by
  obtain ⟨layout', c, scanned', run⟩ := run_eq_ok.1 run
  obtain rfl : layout' = layout := Except.ok.inj (scanned'.symm.trans scanned)
  obtain ⟨uses, spends, made⟩ := h _ c x run (Cursor.isEnded_ofLayout layout')
  obtain ⟨use, used, makes⟩ := List.mem_filterMap.1 (made.subset remark)
  cases use with
  | above start =>
    rw [Use.remark?] at makes
    split at makes
    · cases makes
    · next first more run =>
      cases makes
      obtain ⟨m, among, rfl⟩ := List.mem_map.1 mem
      rw [← run] at among
      exact ⟨m, (Layout.mem_own.1 (File.Attached.ownLine_of_mem_docComments among)).1, rfl⟩
  | behind m =>
    cases makes
    rw [List.mem_singleton.1 mem]
    have claimed : m ∈ claimedBy uses := List.mem_filterMap.2 ⟨_, used, rfl⟩
    have trailing := spends.trailing.subset (List.mem_append_left _ claimed)
    exact ⟨m, (List.mem_filter.1 trailing).1, rfl⟩

/-- What a parser attaches are comments of the source, so that they have no bracket if those have none. -/
theorem Attaches.bracketless (h : Attaches false [] p remarks) {source : String} {x : α}
    (run : Parser.run p source = .ok x) {layout : Layout} (scanned : Layout.ofSource source = .ok layout)
    (comments : ∀ m ∈ layout.comments, Bracketless m.text) : ∀ r ∈ remarks x, r.Bracketless := by
  intro r remark text mem
  obtain ⟨m, comment, rfl⟩ := h.exists_of_mem_remarks run scanned remark mem
  exact comments m comment

theorem Quiet.expectEnd : Parser.expectEnd.Quiet fun _ => True :=
  passSemis.bind fun _ _ => ifAsk (.pure trivial) (.fail _)

theorem Attaches.wholeType : Attaches false [] Parser.wholeType TypeExpr.remarks :=
  (constraintWith type).andThen fun _ => after .expectEnd fun _ _ => pure (.refl _)

end Parser

end Typings
