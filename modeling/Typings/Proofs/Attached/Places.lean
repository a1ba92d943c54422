import Typings.Proofs.Token.Joined
import Typings.Proofs.Token.Places

/-!
# Where comments stand

The comments of a source stand one behind the other, so that no two of them are equal
(`Layout.nodup_comments`). One on a line of its own ends at the latest on the line of a token behind it,
and starts below the line of a token before it (`Layout.ends_or_starts`).
-/

namespace Typings

/-- The first place stands before the second. -/
def Position.Precedes (p q : Position) : Prop := p.line < q.line ∨ p.line = q.line ∧ p.col < q.col

namespace Position

variable {p q r : Position}

theorem Precedes.trans (h : p.Precedes q) (k : q.Precedes r) : p.Precedes r := by
  unfold Precedes at *
  omega

theorem Precedes.ne (h : p.Precedes q) : p ≠ q := by
  rintro rfl
  unfold Precedes at h
  omega

theorem precedes_step (p : Position) (c : Char) : p.Precedes (p.step c) := by
  unfold step Precedes
  split
  · exact .inl (Nat.lt_succ_self _)
  · exact .inr ⟨rfl, Nat.lt_succ_self _⟩

/-- A text moves on, unless it is empty. -/
theorem precedes_after (p : Position) {text : List Char} (some : text ≠ []) :
    p.Precedes (p.after text) := by
  induction text generalizing p with
  | nil => exact absurd rfl some
  | cons c text ih =>
    rw [after_cons]
    cases text with
    | nil => exact p.precedes_step c
    | cons d text => exact (p.precedes_step c).trans (ih _ (List.cons_ne_nil _ _))

end Position

theorem Item.precedes_stop (p : Position) {item : Item} (some : item.text ≠ []) :
    p.Precedes (item.stop p) := by
  unfold stop
  split
  · exact .inr ⟨rfl, Nat.lt_add_of_pos_right (List.length_pos_iff.2 some)⟩
  · exact p.precedes_after some

theorem Item.text_ne_nil_of_mem_scan {source : List Char} {item : Item}
    (mem : item ∈ (scan source).1) : item.text ≠ [] := by
  obtain ⟨c, cs, rest, next⟩ := exists_next_of_mem_scan mem
  intro none
  have first := Item.head?_text next
  rw [none] at first
  cases first

/-- A newline is no blank. -/
theorem Item.ne_newline_of_mem_scan {source : List Char} {c : Char}
    (mem : Item.blank c ∈ (scan source).1) : c ≠ '\n' := by
  obtain ⟨d, cs, rest, next⟩ := exists_next_of_mem_scan mem
  cases Item.form_of_next next with
  | blank spacing =>
    rintro rfl
    exact absurd spacing (by decide)

theorem Item.line_lt_stop_comment {text : String} (newline : text.toList.contains '\n' = true)
    (p : Position) : p.line < ((Item.comment text).stop p).line := by
  have mem : '\n' ∈ text.toList := List.contains_iff_mem.1 newline
  show p.line < (p.after text.toList).line
  rw [Position.line_after]
  exact Nat.lt_add_of_pos_right (List.count_pos_iff.2 mem)

namespace Layout

variable {p : Position} {last : Option Lexeme} {items : List Item} {m : Comment} {t : Token}

/-- A comment is an item that has been laid out somewhere. -/
theorem exists_of_mem_comments (mem : m ∈ (ofItems p last items).comments) :
    Item.comment m.text ∈ items ∧ m.endLine = ((Item.comment m.text).stop m.pos).line := by
  induction items generalizing p last with
  | nil => cases mem
  | cons item items ih =>
    have later : ∀ {p last}, m ∈ (ofItems p last items).comments →
        Item.comment m.text ∈ item :: items ∧ m.endLine = ((Item.comment m.text).stop m.pos).line :=
      fun mem => (ih mem).imp_left (List.mem_cons_of_mem _)
    cases item with
    | blank c => exact later mem
    | newline => exact later mem
    | comment text =>
      rw [ofItems] at mem
      split at mem
      · rcases List.mem_cons.1 mem with rfl | behind
        · exact ⟨List.mem_cons_self, rfl⟩
        · exact later behind
      · rcases List.mem_cons.1 mem with rfl | behind
        · exact ⟨List.mem_cons_self, rfl⟩
        · exact later behind
    | word lexeme => exact later mem

theorem pos_line_le_endLine (mem : m ∈ (ofItems p last items).comments) :
    m.pos.line ≤ m.endLine := by
  rw [(exists_of_mem_comments mem).2]
  exact Item.line_le_stop _ _

/-! ## In order -/

/-- The comments stand one behind the other, none before the place where the items start. -/
theorem precedes_ofItems (some : ∀ item ∈ items, item.text ≠ []) (p : Position)
    (last : Option Lexeme) :
    (ofItems p last items).comments.Pairwise (fun m n => m.pos.Precedes n.pos) ∧
      ∀ m ∈ (ofItems p last items).comments, p = m.pos ∨ p.Precedes m.pos := by
  induction items generalizing p last with
  | nil => exact ⟨.nil, List.forall_mem_nil _⟩
  | cons item items ih =>
    obtain ⟨here, behind⟩ := List.forall_mem_cons.1 some
    have on := Item.precedes_stop p here
    have further : ∀ {last}, ∀ m ∈ (ofItems (item.stop p) last items).comments,
        p.Precedes m.pos := by
      intro last m mem
      rcases (ih behind (item.stop p) last).2 m mem with same | later
      · exact same ▸ on
      · exact on.trans later
    have skip : ∀ last, (ofItems (item.stop p) last items).comments.Pairwise
          (fun m n => m.pos.Precedes n.pos) ∧
        ∀ m ∈ (ofItems (item.stop p) last items).comments, p = m.pos ∨ p.Precedes m.pos :=
      fun last => ⟨(ih behind _ last).1, fun m mem => .inr (further m mem)⟩
    have take : ∀ last (m : Comment), m.pos = p →
        (m :: (ofItems (item.stop p) last items).comments).Pairwise
          (fun m n => m.pos.Precedes n.pos) ∧
        ∀ n ∈ m :: (ofItems (item.stop p) last items).comments, p = n.pos ∨ p.Precedes n.pos := by
      intro last m same
      refine ⟨List.pairwise_cons.2 ⟨fun n mem => ?_, (ih behind _ last).1⟩, ?_⟩
      · exact same ▸ further n mem
      · exact List.forall_mem_cons.2 ⟨.inl same.symm, fun n mem => .inr (further n mem)⟩
    cases item with
    | blank c => exact skip last
    | newline => exact skip none
    | comment text =>
      rw [ofItems]
      split
      · exact take none _ rfl
      · exact take last _ rfl
    | word lexeme => exact skip (Option.some lexeme)

/-! ## Beside tokens -/

/-- Behind a word, a comment on a line of its own starts below. -/
theorem line_lt_of_ownLine {w : Lexeme} (mem : m ∈ (ofItems p (some w) items).comments)
    (own : m.ownLine = true) : p.line < m.pos.line := by
  induction items generalizing p w with
  | nil => cases mem
  | cons item items ih =>
    have below : ∀ {p : Position}, m ∈ (ofItems p none items).comments → p.line ≤ m.pos.line :=
      fun mem => ((spans_ofItems _ none items).comments m mem).1
    have on := Item.line_le_stop item p
    cases item with
    | blank c => exact Nat.lt_of_le_of_lt on (ih mem)
    | newline => exact Nat.lt_of_lt_of_le (Nat.lt_succ_self _) (below mem)
    | comment text =>
      rw [ofItems] at mem
      split at mem
      · next newline =>
        rcases List.mem_cons.1 mem with rfl | behind
        · cases own
        · exact Nat.lt_of_lt_of_le (Item.line_lt_stop_comment newline p) (below behind)
      · rcases List.mem_cons.1 mem with rfl | behind
        · cases own
        · exact Nat.lt_of_le_of_lt on (ih behind)
    | word lexeme => exact Nat.lt_of_le_of_lt on (ih mem)

/-- Beside a token, a comment on a line of its own ends before it or on its line, or starts below. -/
theorem ends_or_starts_ofItems (token : t ∈ (ofItems p last items).tokens)
    (mem : m ∈ (ofItems p last items).comments) (own : m.ownLine = true) :
    m.endLine ≤ t.pos.line ∨ t.pos.line < m.pos.line := by
  induction items generalizing p last with
  | nil => cases mem
  | cons item items ih =>
    have below : ∀ {p : Position}, m ∈ (ofItems p none items).comments → p.line ≤ m.pos.line :=
      fun mem => ((spans_ofItems _ none items).comments m mem).1
    have ending : ∀ {t}, t ∈ lineEnd last p → t.pos.line = p.line ∧ last.isNone = false := by
      intro t mem
      refine ⟨line_lineEnd last p t mem, ?_⟩
      cases last with
      | none => cases mem
      | some w => rfl
    cases item with
    | blank c => exact ih token mem
    | newline =>
      rcases List.mem_append.1 token with here | behind
      · rw [(ending here).1]
        exact .inr (Nat.lt_of_lt_of_le (Nat.lt_succ_self _) (below mem))
      · exact ih behind mem
    | comment text =>
      have stays : ∀ {last}, t ∈ (ofItems ((Item.comment text).stop p) last items).tokens →
          ((Item.comment text).stop p).line ≤ t.pos.line :=
        fun token => ((spans_ofItems _ _ items).tokens t token).1
      rw [ofItems] at token mem
      split at mem
      · next newline =>
        rw [if_pos newline] at token
        rcases List.mem_append.1 token with here | behind
        · rw [(ending here).1]
          rcases List.mem_cons.1 mem with rfl | later
          · exact absurd (own.symm.trans (ending here).2) Bool.noConfusion
          · exact .inr (Nat.lt_of_lt_of_le (Item.line_lt_stop_comment newline p) (below later))
        · rcases List.mem_cons.1 mem with rfl | later
          · exact .inl (stays behind)
          · exact ih behind later
      · next line =>
        rw [if_neg line] at token
        rcases List.mem_cons.1 mem with rfl | later
        · exact .inl (stays token)
        · exact ih token later
    | word lexeme =>
      rcases List.mem_cons.1 token with rfl | behind
      · have on := Item.line_le_stop (Item.word lexeme) p
        exact .inr (Nat.lt_of_le_of_lt on (line_lt_of_ownLine mem own))
      · exact ih behind mem

/-! ## In a source -/

variable {source : String} {layout : Layout}

/-- The comments of a source stand one behind the other. -/
theorem pairwise_comments (h : Layout.ofSource source = .ok layout) :
    layout.comments.Pairwise fun m n => m.pos.Precedes n.pos := by
  obtain ⟨rfl, -⟩ := ofItems_scan_of_ofSource h
  have some : ∀ item ∈ (scan source.toList).1, item.text ≠ [] :=
    fun item mem => Item.text_ne_nil_of_mem_scan mem
  exact (precedes_ofItems some .start none).1

/-- No two comments of a source are equal: each stands at a place of its own. -/
theorem nodup_comments (h : Layout.ofSource source = .ok layout) : layout.comments.Nodup :=
  (pairwise_comments h).imp fun precedes same => precedes.ne (congrArg Comment.pos same)

theorem ends_or_starts (h : Layout.ofSource source = .ok layout) (token : t ∈ layout.tokens)
    (mem : m ∈ layout.comments) (own : m.ownLine = true) :
    m.endLine ≤ t.pos.line ∨ t.pos.line < m.pos.line := by
  obtain ⟨rfl, -⟩ := ofItems_scan_of_ofSource h
  exact ends_or_starts_ofItems token mem own

end Layout

end Typings
