import Typings.Proofs.Token.Scanned

/-!
# A source text as its pieces

The pieces of a source are the tokens that are written in it and its comments. A cut of a source is
its pieces in order, each with the blanks before it; put together again they are the source. Every
source that can be laid out has a cut with the tokens and the comments of its layout, none left out
and none added (`Layout.exists_isCut`). In the cut each piece starts where the one before it and the
blanks between them end (`Piece.Placed`).
-/

namespace Typings

/-- A token that is written in a source, or a comment. -/
inductive Piece where
  | token (t : Token)
  | comment (m : Comment)
  deriving DecidableEq, Repr

namespace Piece

/-- The characters of a piece. -/
def text : Piece → List Char
  | token t => t.lexeme.text.toList
  | comment m => m.text.toList

/-- The place that is recorded for a piece. -/
def pos : Piece → Position
  | token t => t.pos
  | comment m => m.pos

/-- The token that a piece is. -/
def token? : Piece → Option Token
  | token t => some t
  | comment _ => none

/-- The comment that a piece is. -/
def comment? : Piece → Option Comment
  | token _ => none
  | comment m => some m

/-- The item that a piece is in the source. -/
def item : Piece → Item
  | token t => .word t.lexeme
  | comment m => .comment m.text

theorem item_text (q : Piece) : q.item.text = q.text := by cases q <;> rfl

end Piece

/-- A space, a tab, a carriage return or a newline. -/
def isBlankChar (c : Char) : Bool := c = ' ' || c = '\t' || c = '\r' || c = '\n'

/-- A piece with the characters between it and the piece before it. -/
structure SpacedPiece where
  gap : List Char
  piece : Piece

/-- The characters of pieces and of the gaps before them. -/
def textOfPieces (pieces : List SpacedPiece) : List Char :=
  pieces.flatMap fun q => q.gap ++ q.piece.text

/-- The pieces are the written tokens and the comments of a layout, each of them once and in their
orders; with blanks before each of them and behind the last one, they are the source. -/
structure Layout.IsCut (layout : Layout) (source : List Char) (pieces : List SpacedPiece)
    (tail : List Char) : Prop where
  tokens_eq : pieces.filterMap (fun q => q.piece.token?) = layout.tokens.filter fun t => !t.auto
  comments_eq : pieces.filterMap (fun q => q.piece.comment?) = layout.comments
  gap_blank : ∀ q ∈ pieces, q.gap.all isBlankChar = true
  tail_blank : tail.all isBlankChar = true
  text_eq : textOfPieces pieces ++ tail = source

/-- From a place on, each piece is recorded where the item before it and the gap end. The line where
a comment ends is that of the place behind it. -/
def Piece.Placed (p : Position) : List SpacedPiece → Prop
  | [] => True
  | q :: pieces =>
    let start := p.after q.gap
    q.piece.pos = start ∧
    (∀ m, q.piece = .comment m → m.endLine = (q.piece.item.stop start).line) ∧
    Placed (q.piece.item.stop start) pieces

/-- The place where pieces end, by what is recorded of them. -/
def Piece.stopOf (p : Position) : List SpacedPiece → Position
  | [] => p
  | q :: pieces => stopOf (q.piece.item.stop (p.after q.gap)) pieces

/-! ## What an item can be -/

/-- The forms of the item at the start of a text, by its first character. -/
inductive Item.Form (c : Char) (cs : List Char) : Item → Prop where
  | newline : c = '\n' → Form c cs .newline
  | blank : isSpacing c = true → Form c cs (.blank c)
  | lineComment : c = '/' → Form c cs (.comment (String.ofList (c :: cs.takeWhile (· ≠ '\n'))))
  | blockComment {inside rest : List Char} : c = '/' → cutBlock cs.tail = some (inside, rest) →
      Form c cs (.comment (String.ofList (c :: '*' :: inside)))
  | number (inside : List Char) : c ≠ '"' → c ≠ '\x27' → Form c cs
      (.word (.literal (.ofNumber (c :: inside)) (String.ofList (c :: inside))))
  | quoted (kind : LiteralKind) (inside : List Char) :
      c = '"' ∧ kind = .string ∨ c = '\x60' ∧ kind = .string ∨ c = '\x27' ∧ kind = .rune →
      Form c cs (.word (.literal kind (String.ofList (c :: inside))))
  | name (word : String) : c ≠ '"' → c ≠ '\x27' → Form c cs (.word (wordLexeme word))
  | operator (o : Operator) : c ≠ '"' → c ≠ '\x27' → Form c cs (.word (.op o))

/-- Every item has one of the forms. -/
theorem Item.form_of_next {c : Char} {cs rest : List Char} {item : Item}
    (h : Item.next c cs = .ok (item, rest)) : Item.Form c cs item := by
  cases Item.starts_of_next h with
  | newline line => exact .newline line
  | blank spacing => exact .blank spacing
  | lineComment slash => exact .lineComment slash
  | blockComment slash _ cut => exact .blockComment slash cut
  | number begins =>
    apply Form.number
    · rintro rfl
      cases begins
    · rintro rfl
      cases begins
  | quoted quote => exact .quoted _ _ (quote.imp_right .inr)
  | raw quote => exact .quoted _ _ (.inr (.inl ⟨quote, rfl⟩))
  | name double single => exact .name _ double single
  | operator double single => exact .operator _ double single

/-- An item begins where it was found. -/
theorem Item.head?_text {c : Char} {cs rest : List Char} {item : Item}
    (h : Item.next c cs = .ok (item, rest)) : item.text.head? = some c := by
  obtain ⟨inside, text, -⟩ := (starts_of_next h).exists_text
  rw [text, List.head?_cons]

/-! ## Items of a layout -/

/-- An item that is blank is one of the blank characters. -/
def Item.IsSpaced : Item → Prop
  | .blank c => isSpacing c = true
  | _ => True

theorem Item.Form.isSpaced {c : Char} {cs : List Char} {item : Item} (h : Item.Form c cs item) :
    item.IsSpaced := by
  cases h with
  | blank spacing => exact spacing
  | _ => trivial

theorem isSpaced_of_mem_scan {source : List Char} {item : Item} (mem : item ∈ (scan source).1) :
    item.IsSpaced := by
  obtain ⟨c, cs, rest, next⟩ := exists_next_of_mem_scan mem
  exact (Item.form_of_next next).isSpaced

/-- The piece has the form of an item that begins as its text does. -/
def Piece.HasForm (q : Piece) : Prop := ∃ c cs, q.text.head? = some c ∧ Item.Form c cs q.item

theorem Piece.hasForm_of_mem_scan {source : List Char} {q : Piece} (mem : q.item ∈ (scan source).1) :
    q.HasForm := by
  obtain ⟨c, cs, rest, next⟩ := exists_next_of_mem_scan mem
  refine ⟨c, cs, ?_, Item.form_of_next next⟩
  rw [← q.item_text]
  exact Item.head?_text next

theorem isBlankChar_of_isSpacing {c : Char} (h : isSpacing c = true) : isBlankChar c = true := by
  unfold isSpacing at h
  simp [isBlankChar, h]

/-- No semicolon that stands for a line end is written. -/
theorem filter_lineEnd (last : Option Lexeme) (p : Position) :
    (lineEnd last p).filter (fun t => !t.auto) = [] := by
  unfold lineEnd
  split <;> rfl

namespace Layout

variable {layout : Layout} {source tail : List Char} {pieces : List SpacedPiece}

/-- Semicolons for line ends do not show in a cut. -/
theorem IsCut.withLineEnd (h : layout.IsCut source pieces tail) (last : Option Lexeme)
    (p : Position) : (layout.withTokens (lineEnd last p)).IsCut source pieces tail := by
  refine ⟨?_, h.comments_eq, h.gap_blank, h.tail_blank, h.text_eq⟩
  rw [h.tokens_eq, withTokens, List.filter_append, filter_lineEnd, List.nil_append]

theorem IsCut.withWord (h : layout.IsCut source pieces tail) {gap : List Char}
    (blank : gap.all isBlankChar = true) (w : Lexeme) (p : Position) :
    (layout.withTokens [⟨w, p, false⟩]).IsCut (gap ++ w.text.toList ++ source)
      (⟨gap, .token ⟨w, p, false⟩⟩ :: pieces) tail := by
  refine ⟨?_, h.comments_eq, List.forall_mem_cons.2 ⟨blank, h.gap_blank⟩, h.tail_blank, ?_⟩
  · rw [withTokens, List.filter_append, ← h.tokens_eq]
    rfl
  · simp [textOfPieces, Piece.text, ← h.text_eq]

theorem IsCut.withComment (h : layout.IsCut source pieces tail) {gap : List Char}
    (blank : gap.all isBlankChar = true) (m : Comment) :
    (layout.withComment m).IsCut (gap ++ m.text.toList ++ source)
      (⟨gap, .comment m⟩ :: pieces) tail := by
  refine ⟨h.tokens_eq, ?_, List.forall_mem_cons.2 ⟨blank, h.gap_blank⟩, h.tail_blank, ?_⟩
  · rw [Layout.withComment, ← h.comments_eq]
    rfl
  · simp [textOfPieces, Piece.text, ← h.text_eq]

/-- Items that are laid out behind a gap have a cut that begins with this gap. Blanks and newlines
lengthen the gap until a piece ends it. -/
theorem exists_isCut_ofItems (items : List Item) (spaced : ∀ item ∈ items, item.IsSpaced)
    (p : Position) (last : Option Lexeme) (gap : List Char) (blank : gap.all isBlankChar = true) :
    ∃ pieces tail, (ofItems (p.after gap) last items).IsCut (gap ++ items.flatMap Item.text) pieces
        tail ∧
      (∀ q ∈ pieces, q.piece.item ∈ items) ∧ Piece.Placed p pieces ∧
      (ofItems (p.after gap) last items).stop = (Piece.stopOf p pieces).after tail := by
  induction items generalizing p last gap with
  | nil =>
    refine ⟨[], gap, ⟨?_, rfl, List.forall_mem_nil _, blank, ?_⟩, List.forall_mem_nil _, trivial, rfl⟩
    · exact (filter_lineEnd last _).symm
    · simp [textOfPieces]
  | cons item items ih =>
    have later := ih fun other mem => spaced other (List.mem_cons_of_mem _ mem)
    have further : ∀ {pieces : List SpacedPiece}, (∀ q ∈ pieces, q.piece.item ∈ items) →
        ∀ q ∈ pieces, q.piece.item ∈ item :: items :=
      fun among q mem => List.mem_cons_of_mem _ (among q mem)
    cases item with
    | blank c =>
      have here : isSpacing c = true := spaced _ List.mem_cons_self
      have longer : (gap ++ [c]).all isBlankChar = true := by
        simp [List.all_append, blank, isBlankChar_of_isSpacing here]
      obtain ⟨pieces, tail, cut, among, placed, stop⟩ := later p last (gap ++ [c]) longer
      rw [Position.after_append] at cut stop
      refine ⟨pieces, tail, ?_, further among, placed, stop⟩
      rw [List.flatMap_cons, ← List.append_assoc]
      exact cut
    | newline =>
      have longer : (gap ++ ['\n']).all isBlankChar = true := by
        simp [List.all_append, blank, isBlankChar]
      obtain ⟨pieces, tail, cut, among, placed, stop⟩ := later p none (gap ++ ['\n']) longer
      rw [Position.after_append] at cut stop
      refine ⟨pieces, tail, ?_, further among, placed, stop⟩
      rw [List.flatMap_cons, ← List.append_assoc]
      exact cut.withLineEnd last _
    | comment text =>
      let start := p.after gap
      let stop := (Item.comment text).stop start
      let piece (last : Option Lexeme) : SpacedPiece :=
        ⟨gap, .comment ⟨text, start, stop.line, last.isNone⟩⟩
      have placedHere : ∀ {last pieces}, Piece.Placed stop pieces →
          Piece.Placed p (piece last :: pieces) :=
        fun placed => ⟨rfl, fun m same => by cases same; rfl, placed⟩
      have amongHere : ∀ {last pieces}, (∀ q ∈ pieces, q.piece.item ∈ items) →
          ∀ q ∈ piece last :: pieces, q.piece.item ∈ Item.comment text :: items :=
        fun among => List.forall_mem_cons.2 ⟨List.mem_cons_self, further among⟩
      by_cases lines : text.toList.contains '\n' = true
      · obtain ⟨pieces, tail, cut, among, placed, ends⟩ := later stop none [] rfl
        refine ⟨piece last :: pieces, tail, ?_, amongHere among, placedHere placed, ?_⟩
        · rw [ofItems, if_pos lines, List.flatMap_cons, ← List.append_assoc]
          exact (cut.withLineEnd last start).withComment blank _
        · rw [ofItems, if_pos lines]
          exact ends
      · obtain ⟨pieces, tail, cut, among, placed, ends⟩ := later stop last [] rfl
        refine ⟨piece last :: pieces, tail, ?_, amongHere among, placedHere placed, ?_⟩
        · rw [ofItems, if_neg lines, List.flatMap_cons, ← List.append_assoc]
          exact cut.withComment blank _
        · rw [ofItems, if_neg lines]
          exact ends
    | word w =>
      obtain ⟨pieces, tail, cut, among, placed, stop⟩ :=
        later ((Item.word w).stop (p.after gap)) (some w) [] rfl
      refine ⟨⟨gap, .token ⟨w, p.after gap, false⟩⟩ :: pieces, tail, ?_,
        List.forall_mem_cons.2 ⟨List.mem_cons_self, further among⟩, ?_, stop⟩
      · rw [List.flatMap_cons, ← List.append_assoc]
        exact cut.withWord blank w _
      · exact ⟨rfl, fun m same => (by cases same), placed⟩

/-- A layout is that of the items of its source, which are its text. -/
theorem ofItems_scan_of_ofSource {source : String} (h : Layout.ofSource source = .ok layout) :
    layout = ofItems .start none (scan source.toList).1 ∧
      (scan source.toList).1.flatMap Item.text = source.toList := by
  unfold ofSource at h
  dsimp only at h
  split at h
  · next complete =>
    cases h
    exact ⟨rfl, scan_text complete⟩
  · cases h

/-- Every source that can be laid out has a cut, in which each piece has the form of an item and is
where it was recorded. -/
theorem exists_placed_cut {source : String} (h : Layout.ofSource source = .ok layout) :
    ∃ pieces tail, layout.IsCut source.toList pieces tail ∧
      (∀ q ∈ pieces, q.piece.HasForm) ∧
      Piece.Placed .start pieces ∧ layout.stop = (Piece.stopOf .start pieces).after tail := by
  obtain ⟨rfl, text⟩ := ofItems_scan_of_ofSource h
  obtain ⟨pieces, tail, cut, among, placed, stop⟩ := exists_isCut_ofItems (scan source.toList).1
    (fun _ mem => isSpaced_of_mem_scan mem) .start none [] rfl
  rw [text] at cut
  exact ⟨pieces, tail, cut, fun q mem => Piece.hasForm_of_mem_scan (among q mem), placed, stop⟩

/-- Nothing is lost: the written tokens and the comments of a source, with nothing but blanks before,
between and behind them, are the source. -/
theorem exists_isCut {source : String} (h : Layout.ofSource source = .ok layout) :
    ∃ pieces tail, layout.IsCut source.toList pieces tail := by
  obtain ⟨pieces, tail, cut, -⟩ := exists_placed_cut h
  exact ⟨pieces, tail, cut⟩

/-- A number with a sign, a raw literal over two lines, a literal with an escaped newline, and
comments of both kinds directly behind words. -/
theorem exists_isCut_literals :
    let source := "a=1e+5/*\n*/\x60\n\x60 \r\t\"\\\n\"// end"
    ∃ layout, Layout.ofSource source = .ok layout ∧
      (layout.tokens.filter fun t => !t.auto).map (fun t => t.lexeme.text) =
        ["a", "=", "1e+5", "\x60\n\x60", "\"\\\n\""] ∧
      layout.comments.map Comment.text = ["/*\n*/", "// end"] ∧
      ∃ pieces tail, layout.IsCut source.toList pieces tail := by
  intro source
  have texts : (Layout.ofSource source).toOption.map (fun layout =>
      ((layout.tokens.filter fun t => !t.auto).map (fun t => t.lexeme.text),
        layout.comments.map Comment.text)) =
      some (["a", "=", "1e+5", "\x60\n\x60", "\"\\\n\""], ["/*\n*/", "// end"]) := by
    decide +kernel
  obtain ⟨layout, h, texts⟩ := exists_of_toOption_map texts
  obtain ⟨tokens, comments⟩ := Prod.mk.inj texts
  exact ⟨layout, h, tokens, comments, exists_isCut h⟩

end Layout

end Typings
