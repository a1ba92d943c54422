import Typings.Proofs.Token.Pieces

/-!
# Where the pieces of a source are

The place behind a text is counted from its newlines and from what follows the last of them
(`Position.behind`). A piece of a source is recorded at the place behind the text before it, and a
comment ends on the line of its last character, exactly if no literal in quotes before the piece
holds a newline (`Layout.pos_eq_behind_iff`). In such a literal a backslash takes the newline along,
and the line is not counted: all that follows is recorded on a line too far up.
-/

namespace Typings

namespace Position

/-- The place behind a text, counted: the newlines in it, and the characters behind the last one. -/
def behind (text : List Char) : Position :=
  ⟨1 + text.count '\n', 1 + (text.reverse.takeWhile (· ≠ '\n')).length⟩

theorem behind_concat (text : List Char) (c : Char) : behind (text ++ [c]) = (behind text).step c := by
  by_cases newline : c = '\n'
  · simp [behind, step, newline, Nat.add_assoc]
  · simp [behind, step, newline, Nat.add_comm]

/-- Moving over a text from the start leads behind it. -/
theorem after_start (text : List Char) : start.after text = behind text := by
  have reversed : ∀ cs : List Char, start.after cs.reverse = behind cs.reverse := by
    intro cs
    induction cs with
    | nil => rfl
    | cons c cs ih => rw [List.reverse_cons, after_append, ih, behind_concat]; rfl
  simpa only [List.reverse_reverse] using reversed text.reverse

/-- Each newline begins a line. -/
theorem line_after (p : Position) (text : List Char) :
    (p.after text).line = p.line + text.count '\n' := by
  induction text generalizing p with
  | nil => rfl
  | cons c text ih =>
    rw [after_cons, ih, List.count_cons, step]
    by_cases newline : c = '\n'
    · simp only [newline, if_true, beq_self_eq_true]
      omega
    · have other : (c == '\n') = false := beq_false_of_ne newline
      simp only [newline, if_false, other, Bool.false_eq_true]
      omega

end Position

/-! ## Literals that hold newlines -/

/-- The newlines in a literal in double or single quotes; no other piece hides any. -/
def Piece.hiddenNewlines (q : Piece) : Nat :=
  if q.text.head? = some '"' ∨ q.text.head? = some '\x27' then q.text.count '\n' else 0

/-- The newlines that are hidden in pieces. -/
def newlinesHiddenIn : List SpacedPiece → Nat
  | [] => 0
  | q :: pieces => q.piece.hiddenNewlines + newlinesHiddenIn pieces

/-- Over a number, columns are counted as over any text. -/
theorem Item.isFlat_number (number : List Char) (text : String) :
    (Item.word (.literal (.ofNumber number) text)).isFlat = false := by
  unfold LiteralKind.ofNumber
  repeat' split
  all_goals rfl

/-- Over a word, columns are counted as over any text. -/
theorem Item.isFlat_wordLexeme (word : String) : (Item.word (wordLexeme word)).isFlat = false := by
  unfold wordLexeme
  split <;> rfl

/-- Columns are counted on over a newline in exactly the items that begin with a double or a single
quote. -/
theorem Item.Form.isFlat_iff {c : Char} {cs : List Char} {item : Item} (h : Item.Form c cs item) :
    item.isFlat = true ↔ c = '"' ∨ c = '\x27' := by
  have neither : c ≠ '"' → c ≠ '\x27' → ¬(c = '"' ∨ c = '\x27') := fun double single =>
    not_or.2 ⟨double, single⟩
  cases h with
  | newline here => simp [Item.isFlat, here]
  | blank here =>
    refine ⟨fun flat => absurd flat Bool.false_ne_true, ?_⟩
    rintro (rfl | rfl) <;> cases here
  | lineComment here => simp [Item.isFlat, here]
  | blockComment here cut => simp [Item.isFlat, here]
  | number inside double single => simp [Item.isFlat_number, double, single]
  | quoted kind inside quote =>
    rcases quote with ⟨rfl, rfl⟩ | ⟨rfl, rfl⟩ | ⟨rfl, rfl⟩ <;> simp [Item.isFlat]
  | name word double single => simp [Item.isFlat_wordLexeme, double, single]
  | operator o double single => simp [Item.isFlat, double, single]

theorem cutBlock_concat {cs inside rest : List Char} (h : cutBlock cs = some (inside, rest)) :
    ∃ init, inside = init ++ ['/'] := by
  fun_induction cutBlock cs generalizing inside with
  | case1 =>
    cases h
    exact ⟨['*'], rfl⟩
  | case2 c cs _ ih =>
    obtain ⟨⟨inside', rest'⟩, cut, same⟩ := Option.map_eq_some_iff.1 h
    cases same
    obtain ⟨init, rfl⟩ := ih cut
    exact ⟨c :: init, rfl⟩
  | case3 => cases h

/-- A comment has a last character, and that is no newline. -/
theorem Item.Form.comment_concat {c : Char} {cs : List Char} {text : String}
    (h : Item.Form c cs (.comment text)) : ∃ init d, text.toList = init ++ [d] ∧ d ≠ '\n' := by
  cases h with
  | lineComment here =>
    have inLine : ∀ d ∈ c :: cs.takeWhile (· ≠ '\n'), d ≠ '\n' := by
      intro d mem
      rcases List.mem_cons.1 mem with rfl | behind
      · rw [here]
        decide
      · simpa using List.all_eq_true.1 List.all_takeWhile d behind
    obtain ⟨init, d, same⟩ := List.eq_nil_or_concat (c :: cs.takeWhile (· ≠ '\n'))
      |>.resolve_left (List.cons_ne_nil _ _)
    rw [List.concat_eq_append] at same
    refine ⟨init, d, String.toList_ofList.trans same, inLine d ?_⟩
    rw [same]
    exact List.mem_append_right _ List.mem_cons_self
  | blockComment here cut =>
    obtain ⟨init, rfl⟩ := cutBlock_concat cut
    exact ⟨c :: '*' :: init, '/', String.toList_ofList, by decide⟩

/-! ## What is recorded and what is there -/

namespace Piece

theorem HasForm.isFlat_iff {q : Piece} (h : q.HasForm) :
    q.item.isFlat = true ↔ q.text.head? = some '"' ∨ q.text.head? = some '\x27' := by
  obtain ⟨c, cs, head, form⟩ := h
  rw [form.isFlat_iff, head, Option.some.injEq, Option.some.injEq]

/-- The line recorded behind a piece misses the newlines that it hides. -/
theorem HasForm.line_stop {q : Piece} (h : q.HasForm) (p : Position) :
    (q.item.stop p).line + q.hiddenNewlines = p.line + q.text.count '\n' := by
  unfold Item.stop hiddenNewlines
  rw [q.item_text]
  by_cases flat : q.item.isFlat = true
  · rw [if_pos flat, if_pos (h.isFlat_iff.1 flat)]
    rfl
  · rw [if_neg flat, if_neg (mt h.isFlat_iff.2 flat), Position.line_after]
    rfl

/-- Behind a piece that hides no newline, the recorded place is that behind its text. -/
theorem HasForm.stop_eq_after {q : Piece} (h : q.HasForm) (none : q.hiddenNewlines = 0)
    (p : Position) : q.item.stop p = p.after q.text := by
  unfold Item.stop
  rw [q.item_text]
  by_cases flat : q.item.isFlat = true
  · rw [hiddenNewlines, if_pos (h.isFlat_iff.1 flat)] at none
    rw [if_pos flat]
    exact (Position.after_eq_right p (List.count_eq_zero.1 none)).symm
  · rw [if_neg flat]

end Piece

theorem textOfPieces_cons (q : SpacedPiece) (pieces : List SpacedPiece) :
    textOfPieces (q :: pieces) = q.gap ++ q.piece.text ++ textOfPieces pieces := rfl

theorem newlinesHiddenIn_cons (q : SpacedPiece) (pieces : List SpacedPiece) :
    newlinesHiddenIn (q :: pieces) = q.piece.hiddenNewlines + newlinesHiddenIn pieces := rfl

namespace Piece

/-- The line recorded behind pieces misses the newlines that they hide. -/
theorem line_stopOf {pieces : List SpacedPiece} (forms : ∀ q ∈ pieces, q.piece.HasForm)
    (p : Position) :
    (stopOf p pieces).line + newlinesHiddenIn pieces =
      p.line + (textOfPieces pieces).count '\n' := by
  induction pieces generalizing p with
  | nil => rfl
  | cons q pieces ih =>
    obtain ⟨form, forms⟩ := List.forall_mem_cons.1 forms
    have later := ih forms (q.piece.item.stop (p.after q.gap))
    have here := form.line_stop (p.after q.gap)
    rw [Position.line_after] at here
    rw [stopOf, newlinesHiddenIn_cons, textOfPieces_cons, List.count_append, List.count_append]
    omega

/-- Behind pieces that hide no newline, the recorded place is that behind their text. -/
theorem stopOf_eq_after {pieces : List SpacedPiece} (forms : ∀ q ∈ pieces, q.piece.HasForm)
    (none : newlinesHiddenIn pieces = 0) (p : Position) :
    stopOf p pieces = p.after (textOfPieces pieces) := by
  induction pieces generalizing p with
  | nil => rfl
  | cons q pieces ih =>
    obtain ⟨form, forms⟩ := List.forall_mem_cons.1 forms
    obtain ⟨here, later⟩ := Nat.add_eq_zero_iff.1 none
    rw [stopOf, form.stop_eq_after here, ih forms later, textOfPieces_cons, Position.after_append,
      Position.after_append]

/-- Among placed pieces, each is where those before it and the gap end. -/
theorem Placed.pos_eq {p : Position} {before behind : List SpacedPiece} {q : SpacedPiece}
    (h : Placed p (before ++ q :: behind)) :
    q.piece.pos = (stopOf p before).after q.gap ∧
      ∀ m, q.piece = .comment m → m.endLine = (q.piece.item.stop q.piece.pos).line := by
  induction before generalizing p with
  | nil =>
    obtain ⟨here, ends, -⟩ := h
    rw [here]
    exact ⟨rfl, ends⟩
  | cons r before ih => exact ih h.2.2

/-- A comment that is placed ends on the line of its last character, counted from the line where it
is recorded. -/
theorem HasForm.line_of_comment {m : Comment} (h : (Piece.comment m).HasForm) (p : Position) :
    ((Piece.comment m).item.stop p).line = p.line + m.text.toList.dropLast.count '\n' := by
  obtain ⟨c, cs, -, form⟩ := h
  obtain ⟨init, d, text, other⟩ := form.comment_concat
  show (p.after m.text.toList).line = _
  have last : [d].count '\n' = 0 := List.count_eq_zero.2 (by simpa using other.symm)
  rw [Position.line_after, text, List.dropLast_concat, List.count_append, last, Nat.add_zero]

end Piece

/-- Behind pieces and a gap, the recorded line misses the newlines that the pieces hide, and the
recorded place is the one behind the text exactly if they hide none. -/
theorem Piece.after_stopOf_eq_behind_iff {pieces : List SpacedPiece}
    (forms : ∀ q ∈ pieces, q.piece.HasForm) (gap : List Char) :
    ((stopOf .start pieces).after gap).line + newlinesHiddenIn pieces =
        (Position.behind (textOfPieces pieces ++ gap)).line ∧
      ((stopOf .start pieces).after gap = .behind (textOfPieces pieces ++ gap) ↔
        newlinesHiddenIn pieces = 0) := by
  have lines : ((stopOf .start pieces).after gap).line + newlinesHiddenIn pieces =
      (Position.behind (textOfPieces pieces ++ gap)).line := by
    have missed := line_stopOf forms .start
    rw [← Position.after_start, Position.line_after, Position.line_after, List.count_append]
    omega
  refine ⟨lines, ?_, ?_⟩
  · intro same
    rw [same] at lines
    omega
  · intro none
    rw [stopOf_eq_after forms none, ← Position.after_append, Position.after_start]

/-- Where the pieces of a source are. Each is recorded on a line too far up by the newlines that the
literals in quotes before it hide; and it is recorded at its place, and as a comment with the line of
its last character, exactly if they hide none. The same is true of the end of the source. -/
theorem Layout.pos_eq_behind_iff {source : String} {layout : Layout}
    (h : Layout.ofSource source = .ok layout) :
    ∃ pieces tail, layout.IsCut source.toList pieces tail ∧
      (∀ before q after, pieces = before ++ q :: after →
        let text := textOfPieces before ++ q.gap
        q.piece.pos.line + newlinesHiddenIn before = (Position.behind text).line ∧
        ((q.piece.pos = .behind text ∧ ∀ m, q.piece = .comment m →
            m.endLine = (Position.behind (text ++ m.text.toList.dropLast)).line) ↔
          newlinesHiddenIn before = 0)) ∧
      (layout.last.pos = .behind source.toList ↔ newlinesHiddenIn pieces = 0) := by
  obtain ⟨pieces, tail, cut, forms, placed, stop⟩ := Layout.exists_placed_cut h
  refine ⟨pieces, tail, cut, ?_, ?_⟩
  · intro before q after split
    subst split
    have formsBefore : ∀ r ∈ before, r.piece.HasForm := fun r mem =>
      forms r (List.mem_append_left _ mem)
    obtain ⟨pos, ends⟩ := placed.pos_eq
    obtain ⟨lines, exactly⟩ := Piece.after_stopOf_eq_behind_iff formsBefore q.gap
    rw [← pos] at lines exactly
    refine ⟨lines, fun both => exactly.1 both.1, fun none => ⟨exactly.2 none, ?_⟩⟩
    intro m same
    have form : (Piece.comment m).HasForm :=
      same ▸ forms q (List.mem_append_right _ List.mem_cons_self)
    rw [ends m same, same, form.line_of_comment, ← same, exactly.2 none, ← Position.after_start,
      ← Position.line_after, ← Position.after_append, Position.after_start]
  · rw [show layout.last.pos = layout.stop from rfl, stop, ← cut.text_eq]
    exact (Piece.after_stopOf_eq_behind_iff forms tail).2

/-- A raw literal over two lines hides nothing: the source ends at its place, and so does whatever
stands before. -/
theorem Layout.pos_eq_behind_iff_raw :
    let source := "a \x60\n\x60 /* b\n*/ c"
    ∃ layout, Layout.ofSource source = .ok layout ∧ layout.last.pos = ⟨3, 5⟩ ∧
      Position.behind source.toList = ⟨3, 5⟩ ∧
      ∃ pieces tail, layout.IsCut source.toList pieces tail ∧
        (∀ before q after, pieces = before ++ q :: after →
          let text := textOfPieces before ++ q.gap
          q.piece.pos.line + newlinesHiddenIn before = (Position.behind text).line ∧
          ((q.piece.pos = .behind text ∧ ∀ m, q.piece = .comment m →
              m.endLine = (Position.behind (text ++ m.text.toList.dropLast)).line) ↔
            newlinesHiddenIn before = 0)) ∧
        (layout.last.pos = .behind source.toList ↔ newlinesHiddenIn pieces = 0) := by
  intro source
  have place : (Layout.ofSource source).toOption.map (fun layout => layout.last.pos) =
      some ⟨3, 5⟩ := by
    decide +kernel
  obtain ⟨layout, h, last⟩ := exists_of_toOption_map place
  exact ⟨layout, h, last, by decide +kernel, Layout.pos_eq_behind_iff h⟩

/-- Behind a newline that a literal hides, a name is recorded on the line of the literal. -/
theorem Layout.pos_ne_behind :
    ∃ layout, Layout.ofSource "\"\\\n\" x" = .ok layout ∧
      (⟨.ident "x", ⟨1, 6⟩, false⟩ : Token) ∈ layout.tokens ∧
      Position.behind "\"\\\n\" ".toList = ⟨2, 3⟩ := by
  have names : (Layout.ofSource "\"\\\n\" x").toOption.map (fun layout =>
      decide ((⟨.ident "x", ⟨1, 6⟩, false⟩ : Token) ∈ layout.tokens)) = some true := by
    decide +kernel
  obtain ⟨layout, h, names⟩ := exists_of_toOption_map names
  exact ⟨layout, h, of_decide_eq_true names, by decide +kernel⟩

end Typings
