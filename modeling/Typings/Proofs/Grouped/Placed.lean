import Typings.Proofs.Grouped.Tracks
import Typings.Proofs.Joined.Frame

/-!
# A text at a place of another

A text that begins inside another stands so many lines further down, and its first line so many columns
further right. It is laid out there as it is alone (`Layout.ofItems_placed`). At each of two places, and
with comments above its lines that are the same, a cursor of it shows the same (`Cursor.agree_placed`):
indentation and line numbers are never seen.
-/

namespace Typings

/-! ## Places -/

/-- The place of what stands at `p` in a text, where the text has so many lines above it and its first
line begins so many columns further right. -/
def Position.placed (lines columns : Nat) (p : Position) : Position :=
  ⟨p.line + lines, if p.line = 1 then p.col + columns else p.col⟩

/-- The token where its text is placed. -/
def Token.placed (lines columns : Nat) (t : Token) : Token :=
  { t with pos := t.pos.placed lines columns }

/-- The comment where its text is placed. -/
def Comment.placed (lines columns : Nat) (m : Comment) : Comment :=
  { m with pos := m.pos.placed lines columns, endLine := m.endLine + lines }

/-- The layout where its text is placed. -/
def Layout.placed (lines columns : Nat) (l : Layout) : Layout :=
  ⟨l.tokens.map (Token.placed lines columns), l.comments.map (Comment.placed lines columns),
    l.stop.placed lines columns⟩

variable {n k n' k' : Nat}

/-- On one line, what is further right stays so. -/
theorem Position.placed_col_lt {p q : Position} (line : p.line = q.line) :
    (p.placed n k).col < (q.placed n k).col ↔ p.col < q.col := by
  unfold placed
  rw [line]
  split
  · exact Nat.add_lt_add_iff_right
  · exact Iff.rfl

theorem Position.after_placed {p : Position} (counted : 1 ≤ p.line) (text : List Char) :
    (p.placed n k).after text = (p.after text).placed n k := by
  induction text generalizing p with
  | nil => rfl
  | cons c text ih =>
    have step : (p.placed n k).step c = (p.step c).placed n k := by
      unfold step
      split
      · have other : p.line + 1 ≠ 1 := by omega
        rw [placed, placed, if_neg other, Nat.add_right_comm]
      · unfold placed
        dsimp only
        split
        · rw [Nat.add_right_comm]
        · rfl
    rw [after_cons, after_cons, step, ih]
    exact Nat.le_trans counted (p.line_le_after [c])

theorem Item.stop_placed {p : Position} (counted : 1 ≤ p.line) (item : Item) :
    item.stop (p.placed n k) = (item.stop p).placed n k := by
  unfold stop
  split
  · unfold Position.placed Position.right
    dsimp only
    split
    · rw [Nat.add_right_comm]
    · rfl
  · exact Position.after_placed counted item.text

theorem lineEnd_placed (last : Option Lexeme) (p : Position) :
    lineEnd last (p.placed n k) = (lineEnd last p).map (Token.placed n k) := by
  unfold lineEnd
  split <;> rfl

namespace Layout

theorem withTokens_placed (ts : List Token) (l : Layout) :
    (l.withTokens ts).placed n k = (l.placed n k).withTokens (ts.map (Token.placed n k)) := by
  rw [withTokens, placed, List.map_append]
  rfl

/-- Items that start at a place are laid out there. -/
theorem ofItems_placed {p : Position} (counted : 1 ≤ p.line) (last : Option Lexeme)
    (items : List Item) :
    ofItems (p.placed n k) last items = (ofItems p last items).placed n k := by
  induction items generalizing p last with
  | nil =>
    rw [ofItems, ofItems, lineEnd_placed]
    rfl
  | cons item items ih =>
    have further := fun last => ih (Nat.le_trans counted (item.line_le_stop p)) last
    cases item with
    | blank c => rw [ofItems, ofItems, Item.stop_placed counted, further]
    | newline =>
      rw [ofItems, ofItems, Item.stop_placed counted, further, lineEnd_placed, withTokens_placed]
    | comment text =>
      rw [ofItems, ofItems, Item.stop_placed counted]
      split
      · rw [further, lineEnd_placed, ← withTokens_placed]
        rfl
      · rw [further]
        rfl
    | word lexeme =>
      rw [ofItems, ofItems, Item.stop_placed counted, further, withTokens_placed]
      rfl

end Layout

/-! ## Cursors -/

/-- The cursor where its text is placed, with other comments on lines of their own. -/
def Cursor.placed (lines columns : Nat) (own : List Comment) (c : Cursor) : Cursor where
  passed := c.passed.map (Token.placed lines columns)
  rest := c.rest.map (Token.placed lines columns)
  stop := c.stop.placed lines columns
  own := own
  trailing := c.trailing.map (Comment.placed lines columns)

namespace Cursor

variable {c : Cursor} {own own' : List Comment}

theorem ahead_placed : (c.placed n k own).ahead = c.ahead := by
  rw [ahead, placed, List.map_map]
  rfl

theorem current_placed : (c.placed n k own).current = c.current.placed n k := by
  rw [current, current, placed]
  cases c.rest <;> rfl

theorem prev_placed : (c.placed n k own).prev = c.prev.placed n k := by
  rw [prev, prev, placed]
  cases c.passed <;> rfl

theorem pass_placed (m : Nat) : (c.placed n k own).pass m = (c.pass m).placed n k own := by
  simp only [pass, placed, List.map_append, List.map_reverse, List.map_take, List.map_drop]

theorem trails_placed (m : Comment) : (c.placed n k own).trails (m.placed n k) = c.trails m := by
  have start : (m.placed n k).pos.line = (c.prev.placed n k).pos.line ↔
      m.pos.line = c.prev.pos.line := Nat.add_right_cancel_iff
  have goesOn : (c.current.placed n k).pos.line ≠ (c.prev.placed n k).pos.line ↔
      c.current.pos.line ≠ c.prev.pos.line := not_congr Nat.add_right_cancel_iff
  rw [trails, trails, current_placed, prev_placed, decide_eq_decide.2 start, decide_eq_decide.2 goesOn]
  by_cases here : m.pos.line = c.prev.pos.line
  · have behind : (c.prev.placed n k).pos.col < (m.placed n k).pos.col ↔
        c.prev.pos.col < m.pos.col := Position.placed_col_lt here.symm
    rw [decide_eq_decide.2 behind]
    by_cases next : c.current.pos.line = c.prev.pos.line
    · have before : (m.placed n k).pos.col < (c.current.placed n k).pos.col ↔
          m.pos.col < c.current.pos.col := Position.placed_col_lt (here.trans next.symm)
      rw [decide_eq_decide.2 before]
    · rw [decide_eq_true next, Bool.true_or, Bool.true_or]
  · rw [decide_eq_false here, Bool.false_and, Bool.false_and, Bool.false_and, Bool.false_and]

theorem trails_comp_placed :
    (c.placed n k own).trails ∘ Comment.placed n k = c.trails := funext trails_placed

theorem commentBehind_placed : (c.placed n k own).commentBehind = c.commentBehind := by
  have trailing : (c.placed n k own).trailing = c.trailing.map (Comment.placed n k) := rfl
  rw [commentBehind, commentBehind, trailing, List.find?_map, trails_comp_placed, Option.map_map]
  rfl

theorem dropCommentBehind_placed :
    (c.placed n k own).dropCommentBehind = c.dropCommentBehind.placed n k own := by
  have trailing : (c.placed n k own).trailing = c.trailing.map (Comment.placed n k) := rfl
  rw [dropCommentBehind, trailing, List.eraseP_map, trails_comp_placed]
  rfl

theorem docAbove_congr {d : Cursor} {line line' : Nat}
    (same : docRun line' d.own = docRun line c.own) : d.docAbove line' = c.docAbove line := by
  rw [docAbove, docAbove, same]

/-! ### Cursors that agree -/

/-- The same lexemes are ahead of both cursors. -/
def SameAhead (c d : Cursor) : Prop := (c.IsEnded ∧ d.IsEnded) ∧ d.ahead = c.ahead

/-- Where no comments are told apart, cursors with the same lexemes ahead agree. -/
theorem agree_sameAhead : Agree (fun _ => none) SameAhead where
  ended h := h.1
  ahead h := h.2
  pass h n := ⟨h.1, by rw [ahead_pass, ahead_pass, h.2]⟩
  docHere _ := by rw [Option.bind_fun_none, Option.bind_fun_none]
  commentBehind _ := by rw [Option.bind_fun_none, Option.bind_fun_none]
  claim h := h

/-- Both cursors are those of one text at two places, with the same comments above each line of it. -/
def SameText (n k n' k' : Nat) (c d : Cursor) : Prop :=
  ∃ (a : Cursor) (own own' : List Comment), a.IsEnded ∧ c = a.placed n k own ∧
    d = a.placed n' k' own' ∧ ∀ line, docRun (line + n') own' = docRun (line + n) own

/-- The cursors of one text at two places agree in all comments. -/
theorem agree_placed : Agree some (SameText n k n' k') where
  ended := by
    rintro _ _ ⟨a, own, own', ended, rfl, rfl, -⟩
    exact ⟨ended, ended⟩
  ahead := by
    rintro _ _ ⟨a, own, own', -, rfl, rfl, -⟩
    rw [ahead_placed, ahead_placed]
  pass := by
    rintro _ _ ⟨a, own, own', ended, rfl, rfl, docs⟩ m
    exact ⟨a.pass m, own, own', ended, pass_placed m, pass_placed m, docs⟩
  docHere := by
    rintro _ _ ⟨a, own, own', -, rfl, rfl, docs⟩
    rw [current_placed, current_placed]
    exact congrArg (Option.bind · some) (docAbove_congr (docs a.current.pos.line))
  commentBehind := by
    rintro _ _ ⟨a, own, own', -, rfl, rfl, -⟩
    rw [commentBehind_placed, commentBehind_placed]
  claim := by
    rintro _ _ ⟨a, own, own', ended, rfl, rfl, docs⟩
    exact ⟨a.dropCommentBehind, own, own', ended, dropCommentBehind_placed, dropCommentBehind_placed,
      docs⟩

end Cursor

end Typings
