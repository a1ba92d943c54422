import Typings.Decl.Parser
import Typings.Proofs.Parser.Reads
import Typings.Proofs.Token.Joined

/-!
# A cursor inside a longer source

A source that stands inside a longer one is moved down by some lines and has tokens and comments of
others around it. A cursor of the source sees the same there (`Cursor.current_within`,
`Cursor.docAbove_within`, `Cursor.commentBehind_within`) as long as nothing around it stands on its
lines, and as long as it stays before the last semicolon of the source or nothing follows there.
-/

namespace Typings

/-- What is around a source in a longer one: by how many lines it is moved down, the tokens before it
with the latest first, the tokens behind it, the end of the longer one, and the comments around it on
lines of their own with the latest first, and the others in order. -/
structure Surroundings where
  shift : Nat
  before : List Token
  after : List Token
  stop : Token
  ownBefore : List Comment
  ownAfter : List Comment
  trailingBefore : List Comment
  trailingAfter : List Comment

/-- The cursor at the same place in the longer source. -/
def Cursor.within (c : Cursor) (s : Surroundings) : Cursor where
  passed := c.passed.map (Token.down s.shift) ++ s.before
  rest := c.rest.map (Token.down s.shift) ++ s.after
  stop := s.stop
  own := s.ownAfter ++ c.own.map (Comment.down s.shift) ++ s.ownBefore
  trailing := s.trailingBefore ++ c.trailing.map (Comment.down s.shift) ++ s.trailingAfter

namespace Surroundings

/-- No comment around is above the line or on it. -/
structure Apart (s : Surroundings) (line : Nat) : Prop where
  own : ∀ m ∈ s.ownAfter ++ s.ownBefore, m.endLine + 1 ≠ line
  trailing : ∀ m ∈ s.trailingBefore ++ s.trailingAfter, m.pos.line ≠ line

/-- The comments around are apart from all that the cursor may meet. -/
structure Clear (s : Surroundings) (c : Cursor) : Prop where
  ended : c.IsEnded
  passed : ∀ t ∈ c.passed, s.Apart (t.pos.line + s.shift)
  rest : ∀ t ∈ c.rest, s.Apart (t.pos.line + s.shift)
  stop : s.Apart (c.stop.pos.line + s.shift)
  own : ∀ m ∈ c.own, ∀ m' ∈ s.ownAfter ++ s.ownBefore, m'.endLine + 1 ≠ m.pos.line + s.shift

/-- The cursor is not yet behind the last semicolon, or there is nothing behind it. -/
def Inside (s : Surroundings) (c : Cursor) : Prop :=
  s.after = [] ∧ s.stop = c.stop.down s.shift ∨
    ∃ ts t, c.rest = ts ++ [t] ∧ t.lexeme = .op .semicolon

end Surroundings

namespace Cursor

/-- The second cursor is further on in the same source. -/
structure Reaches (c c' : Cursor) : Prop where
  tokens : ∃ us, c.rest = us ++ c'.rest ∧ c'.passed = us.reverse ++ c.passed
  stop : c'.stop = c.stop
  own : c'.own = c.own
  trailing : ∀ m ∈ c'.trailing, m ∈ c.trailing

namespace Reaches

variable {c c' c'' : Cursor}

theorem refl (c : Cursor) : c.Reaches c := ⟨⟨[], rfl, rfl⟩, rfl, rfl, fun _ mem => mem⟩

/-- A cursor that is reached from a reached one is reached. -/
theorem trans (h : c.Reaches c') (k : c'.Reaches c'') : c.Reaches c'' := by
  obtain ⟨us, rest, passed⟩ := h.tokens
  obtain ⟨vs, rest', passed'⟩ := k.tokens
  refine ⟨⟨us ++ vs, ?_, ?_⟩, k.stop.trans h.stop, k.own.trans h.own, ?_⟩
  · rw [rest, rest', List.append_assoc]
  · rw [passed', passed, List.reverse_append, List.append_assoc]
  · exact fun m mem => h.trailing m (k.trailing m mem)

theorem pass (c : Cursor) (n : Nat) : c.Reaches (c.pass n) :=
  ⟨⟨c.rest.take n, (List.take_append_drop n c.rest).symm, rfl⟩, rfl, rfl, fun _ mem => mem⟩

theorem passSemis (c : Cursor) : c.Reaches c.passSemis := .pass c _

theorem dropCommentBehind (c : Cursor) : c.Reaches c.dropCommentBehind :=
  ⟨⟨[], rfl, rfl⟩, rfl, rfl, fun _ mem => List.mem_of_mem_eraseP mem⟩

theorem isEnded (h : c.Reaches c') (ended : c.IsEnded) : c'.IsEnded := by
  rw [IsEnded, h.stop]
  exact ended

theorem passed_ne_nil (h : c.Reaches c') (some : c.passed ≠ []) : c'.passed ≠ [] := by
  obtain ⟨us, -, passed⟩ := h.tokens
  rw [passed]
  exact List.append_ne_nil_of_right_ne_nil _ some

end Reaches

end Cursor

namespace Surroundings

variable {s : Surroundings} {c c' : Cursor}

/-- What is clear of the surroundings stays so on the way. -/
theorem Clear.forward (h : s.Clear c) (reaches : c.Reaches c') : s.Clear c' := by
  obtain ⟨us, rest, passed⟩ := reaches.tokens
  refine ⟨reaches.isEnded h.ended, ?_, ?_, reaches.stop ▸ h.stop, reaches.own ▸ h.own⟩
  · intro t mem
    rw [passed] at mem
    rcases List.mem_append.1 mem with new | old
    · exact h.rest t (rest ▸ List.mem_append_left _ (List.mem_reverse.1 new))
    · exact h.passed t old
  · intro t mem
    exact h.rest t (rest ▸ List.mem_append_right _ mem)

/-- Inside stays inside on the way back. -/
theorem Inside.back (h : s.Inside c') (reaches : c.Reaches c') : s.Inside c := by
  rcases h with ⟨nothing, stop⟩ | ⟨ts, t, rest', semi⟩
  · exact .inl ⟨nothing, reaches.stop ▸ stop⟩
  · obtain ⟨us, rest, -⟩ := reaches.tokens
    exact .inr ⟨us ++ ts, t, by rw [rest, rest', List.append_assoc], semi⟩

/-- Inside stays inside as long as a token is ahead. -/
theorem Inside.forward (h : s.Inside c) (reaches : c.Reaches c') (some : c'.rest ≠ []) :
    s.Inside c' := by
  rcases h with ⟨nothing, stop⟩ | ⟨ts, t, rest, semi⟩
  · exact .inl ⟨nothing, reaches.stop ▸ stop⟩
  obtain ⟨us, tokens, -⟩ := reaches.tokens
  rcases List.eq_nil_or_concat c'.rest with nothing | ⟨vs, v, rest'⟩
  · exact absurd nothing some
  · rw [List.concat_eq_append] at rest'
    have same : t = v := by
      rw [rest', rest, ← List.append_assoc] at tokens
      exact List.singleton_inj.1 (List.append_inj' tokens rfl).2
    exact .inr ⟨vs, v, rest', same ▸ semi⟩

end Surroundings

/-! ## What a cursor sees -/

namespace Cursor

variable {s : Surroundings} {c : Cursor}

/-- Up to the first semicolon, the same tokens are ahead. -/
theorem peek_within (inside : s.Inside c) {n : Nat}
    (before : ∀ i < n, (c.peek i).lexeme ≠ .op .semicolon) :
    (c.within s).peek n = (c.peek n).down s.shift := by
  rcases inside with ⟨nothing, stop⟩ | ⟨ts, t, rest, semi⟩
  · simp only [peek, within, nothing, stop, List.append_nil, List.getD_eq_getElem?_getD,
      List.getElem?_map]
    cases c.rest[n]? <;> rfl
  · have le : n ≤ ts.length := by
      refine Nat.le_of_not_lt fun lt => before ts.length lt ?_
      simpa [peek, rest] using semi
    have lt : n < c.rest.length := by
      rw [rest, List.length_append, List.length_singleton]
      omega
    simp only [peek, within, List.getD_eq_getElem?_getD]
    rw [List.getElem?_append_left (by rwa [List.length_map]), List.getElem?_map,
      List.getElem?_eq_getElem lt]
    rfl

theorem current_eq_peek (c : Cursor) : c.current = c.peek 0 := by
  rw [current, peek, List.headD_eq_head?_getD, List.getD_eq_getElem?_getD, List.head?_eq_getElem?]

/-- The token at the cursor is the same, moved down. -/
theorem current_within (inside : s.Inside c) : (c.within s).current = c.current.down s.shift := by
  rw [current_eq_peek, current_eq_peek, peek_within inside fun i lt => absurd lt (Nat.not_lt_zero i)]

theorem current_lexeme_within (inside : s.Inside c) :
    (c.within s).current.lexeme = c.current.lexeme := by
  rw [current_within inside]
  rfl

/-- A look ahead finds the same lexeme, if no semicolon is on the way: the last of a source may be missing
in the longer one. -/
theorem peek_lexeme_within (inside : s.Inside c) {n : Nat}
    (before : ∀ i < n, (c.peek i).lexeme ≠ .op .semicolon) :
    ((c.within s).peek n).lexeme = (c.peek n).lexeme := by
  rw [peek_within inside before]
  rfl

/-- The last token is the same, moved down, where there is one. -/
theorem prev_within (started : c.passed ≠ []) : (c.within s).prev = c.prev.down s.shift := by
  obtain ⟨t, ts, passed⟩ := List.exists_cons_of_ne_nil started
  rw [prev, prev, within, passed]
  rfl

/-- Tokens of the source are passed in the longer one. -/
theorem pass_within (n : Nat) (within : s.after = [] ∨ n ≤ c.rest.length) :
    (c.within s).pass n = (c.pass n).within s := by
  have taken : (c.rest.map (Token.down s.shift) ++ s.after).take n =
      (c.rest.take n).map (Token.down s.shift) := by
    rcases within with nothing | le
    · rw [nothing, List.append_nil, List.map_take]
    · rw [List.take_append_of_le_length (by rwa [List.length_map]), List.map_take]
  have left : (c.rest.map (Token.down s.shift) ++ s.after).drop n =
      (c.rest.drop n).map (Token.down s.shift) ++ s.after := by
    rcases within with nothing | le
    · rw [nothing, List.append_nil, List.append_nil, List.map_drop]
    · rw [List.drop_append_of_le_length (by rwa [List.length_map]), List.map_drop]
  simp only [pass, Cursor.within, taken, left, List.map_append, List.map_reverse, List.append_assoc]

theorem advance_within (inside : s.Inside c) : (c.within s).advance = c.advance.within s := by
  refine pass_within 1 (inside.imp And.left ?_)
  rintro ⟨ts, t, rest, -⟩
  rw [rest, List.length_append]
  exact Nat.le_add_left ..

/-! ### Comments -/

/-- Moved comments make the same runs at moved lines. -/
theorem docRun_down (k line : Nat) (ms : List Comment) :
    docRun (line + k) (ms.map (Comment.down k)) = docRun line ms := by
  induction ms generalizing line with
  | nil => rfl
  | cons m ms ih =>
    have same : m.endLine + k + 1 = line + k ↔ m.endLine + 1 = line := by omega
    simp only [List.map_cons, docRun, Comment.down, Position.down, same, ih]

/-- Comments that do not end above a line take no part in the run above it. -/
theorem docRun_append_of_apart {line : Nat} {ms : List Comment}
    (apart : ∀ m ∈ ms, m.endLine + 1 ≠ line) (more : List Comment) :
    docRun line (ms ++ more) = docRun line more := by
  induction ms with
  | nil => rfl
  | cons m ms ih =>
    rw [List.cons_append, docRun, if_neg (apart m List.mem_cons_self)]
    exact ih fun m' mem => apart m' (List.mem_cons_of_mem _ mem)

/-- Comments that are apart from all lines of a run do not go on with it. -/
theorem docRun_append_right {line : Nat} {ms more : List Comment}
    (apart : ∀ m ∈ more, m.endLine + 1 ≠ line)
    (lines : ∀ m ∈ ms, ∀ m' ∈ more, m'.endLine + 1 ≠ m.pos.line) :
    docRun line (ms ++ more) = docRun line ms := by
  induction ms generalizing line with
  | nil =>
    have none := docRun_append_of_apart apart []
    rwa [List.append_nil] at none
  | cons m ms ih =>
    have further := fun m' mem => lines m' (List.mem_cons_of_mem _ mem)
    rw [List.cons_append, docRun, docRun, ih (lines m List.mem_cons_self) further, ih apart further]

/-- The documentation above a line of the source is the same in the longer one, as the comments around the
source end at other lines. -/
theorem docAbove_within {line : Nat} (apart : s.Apart (line + s.shift))
    (own : ∀ m ∈ c.own, ∀ m' ∈ s.ownAfter ++ s.ownBefore,
      m'.endLine + 1 ≠ m.pos.line + s.shift) :
    (c.within s).docAbove (line + s.shift) = c.docAbove line := by
  have run : docRun (line + s.shift) (c.within s).own = docRun line c.own := by
    rw [within, List.append_assoc,
      docRun_append_of_apart fun m mem => apart.own m (List.mem_append_left _ mem),
      docRun_append_right, docRun_down]
    · exact fun m mem => apart.own m (List.mem_append_right _ mem)
    · intro m mem m' mem'
      obtain ⟨m, here, rfl⟩ := List.mem_map.1 mem
      exact own m here m' (List.mem_append_right _ mem')
  rw [docAbove, docAbove, run]

/-- A comment of the source trails a token in the longer source as in the source. -/
theorem trails_within (inside : s.Inside c) (started : c.passed ≠ []) (m : Comment) :
    (c.within s).trails (m.down s.shift) = c.trails m := by
  simp only [trails, current_within inside, prev_within started, Comment.down, Token.down,
    Position.down, Nat.add_right_cancel_iff, ne_eq]

/-- A comment on another line does not trail. -/
theorem not_trails_of_apart {m : Comment} (started : c.passed ≠ [])
    (other : m.pos.line ≠ c.prev.pos.line + s.shift) : (c.within s).trails m = false := by
  have line : (c.within s).prev.pos.line = c.prev.pos.line + s.shift := by
    rw [prev_within started]
    rfl
  simp [trails, line, other]

/-- The comment behind the token just passed is the same, and it is the one that is gone then. -/
theorem commentBehind_within (clear : s.Clear c) (inside : s.Inside c) (started : c.passed ≠ []) :
    (c.within s).commentBehind = c.commentBehind ∧
      (c.within s).dropCommentBehind = c.dropCommentBehind.within s := by
  obtain ⟨t, ts, passed⟩ := List.exists_cons_of_ne_nil started
  have prev : c.prev = t := by rw [Cursor.prev, passed, List.headD_cons]
  have apart : s.Apart (c.prev.pos.line + s.shift) :=
    prev ▸ clear.passed t (passed ▸ List.mem_cons_self)
  have before : ∀ m ∈ s.trailingBefore, ¬(c.within s).trails m = true := fun m mem =>
    Bool.eq_false_iff.1 (not_trails_of_apart started (apart.trailing m (List.mem_append_left _ mem)))
  have after : ∀ m ∈ s.trailingAfter, ¬(c.within s).trails m = true := fun m mem =>
    Bool.eq_false_iff.1 (not_trails_of_apart started (apart.trailing m (List.mem_append_right _ mem)))
  have same : (c.within s).trails ∘ Comment.down s.shift = c.trails :=
    funext (trails_within inside started)
  have trailing : (c.within s).trailing =
      s.trailingBefore ++ c.trailing.map (Comment.down s.shift) ++ s.trailingAfter := rfl
  constructor
  · rw [commentBehind, commentBehind, trailing, List.find?_append, List.find?_append,
      List.find?_eq_none.2 before, List.find?_eq_none.2 after, List.find?_map, same]
    cases c.trailing.find? c.trails <;> rfl
  · have gone : (c.within s).trailing.eraseP (c.within s).trails =
        s.trailingBefore ++ (c.trailing.eraseP c.trails).map (Comment.down s.shift)
          ++ s.trailingAfter := by
      rw [trailing, List.append_assoc, List.eraseP_append, if_neg (by simpa using before),
        List.eraseP_append, List.eraseP_of_forall_not after, List.eraseP_map, same,
        List.append_assoc]
      split
      · rfl
      · next none =>
        rw [List.any_map, same] at none
        rw [List.eraseP_of_forall_not (by simpa using none)]
    rw [dropCommentBehind, gone]
    rfl

end Cursor

/-! ### Brackets -/

/-- The bracket that brings the depth down to zero is among the lexemes. -/
def closesBracket (depth : Int) : List Lexeme → Bool
  | [] => false
  | .op .leftBracket :: us => closesBracket (depth + 1) us
  | .op .rightBracket :: us => depth = 1 || closesBracket (depth - 1) us
  | _ :: us => closesBracket depth us

theorem closesBracket_cons {w : Lexeme} (opening : w ≠ .op .leftBracket)
    (closing : w ≠ .op .rightBracket) (depth : Int) (us : List Lexeme) :
    closesBracket depth (w :: us) = closesBracket depth us := by
  rw [closesBracket.eq_def]
  split <;> simp_all

/-- Where a bracket closes before a type, it closes. -/
theorem closesBracket_of_closesAheadOfType {depth : Int} {us : List Lexeme}
    (h : closesAheadOfType depth us = true) : closesBracket depth us = true := by
  fun_induction closesAheadOfType depth us with
  | case1 => cases h
  | case2 depth us ih => exact ih h
  | case3 us => rw [closesBracket, decide_eq_true rfl, Bool.true_or]
  | case4 depth us deeper ih => rw [closesBracket, ih h, Bool.or_true]
  | case5 depth w us opening closing ih =>
    rw [closesBracket_cons (fun same => opening same) (fun same => closing same)]
    exact ih h

/-- A bracket that closes does so whatever follows. -/
theorem closesBracket_append {depth : Int} {us : List Lexeme} (h : closesBracket depth us = true)
    (vs : List Lexeme) : closesBracket depth (us ++ vs) = true := by
  fun_induction closesBracket depth us with
  | case1 => cases h
  | case2 depth us ih => exact ih h
  | case3 depth us ih =>
    rw [List.cons_append, closesBracket]
    rcases Bool.or_eq_true_iff.1 h with here | further
    · rw [here, Bool.true_or]
    · rw [ih further, Bool.or_true]
  | case4 depth w us opening closing ih =>
    rw [List.cons_append, closesBracket_cons (fun same => opening same) (fun same => closing same)]
    exact ih h

namespace Cursor

variable {s : Surroundings} {c : Cursor}

/-- To look for a closing bracket is to stay before the last token, if the bracket is before it. -/
theorem closesBeforeType_append {k : Nat} {stop stop' : Token} {depth : Int} {ts after : List Token}
    (h : after = [] ∧ stop' = stop.down k ∨ closesBracket depth (ts.map Token.lexeme) = true ∧
      (ts.map Token.lexeme).getLast? ≠ some (.op .rightBracket)) :
    closesBeforeType stop' depth (ts.map (Token.down k) ++ after) = closesBeforeType stop depth ts := by
  induction ts generalizing depth with
  | nil =>
    rcases h with ⟨rfl, -⟩ | ⟨found, -⟩
    · rfl
    · cases found
  | cons t ts ih =>
    have lexeme : (t.down k).lexeme = t.lexeme := rfl
    have behind : ((t :: ts).map Token.lexeme).getLast? ≠ some (.op .rightBracket) →
        (ts.map Token.lexeme).getLast? ≠ some (.op .rightBracket) := by
      intro last
      cases ts with
      | nil => exact nofun
      | cons => exact last
    rw [List.map_cons, List.cons_append, closesBeforeType, closesBeforeType, lexeme]
    rw [List.map_cons, closesBracket.eq_def] at h
    generalize w : t.lexeme = u at h
    split
    · exact ih (h.imp_right fun h => ⟨h.1, behind (by rw [List.map_cons, w]; exact h.2)⟩)
    · split
      · next one =>
        have next : ((ts.map (Token.down k) ++ after).headD stop').lexeme = (ts.headD stop).lexeme := by
          cases ts with
          | nil =>
            rcases h with ⟨rfl, rfl⟩ | ⟨-, last⟩
            · rfl
            · exact absurd rfl last
          | cons => rfl
        rw [next]
      · next deeper =>
        refine ih (h.imp_right fun h => ⟨?_, behind (by rw [List.map_cons, w]; exact h.2)⟩)
        simpa [deeper] using h.1
    · refine ih (h.imp_right fun h => ⟨?_, behind (by rw [List.map_cons, w]; exact h.2)⟩)
      have found := h.1
      split at found
      · cases found
      · simp_all
      · simp_all
      · simp_all

/-- If a name and an opening bracket are ahead, so is the bracket that closes it. -/
def Bracketed (c : Cursor) : Prop :=
  c.current.lexeme.isIdent = true → (c.peek 1).lexeme = .op .leftBracket →
    closesBracket 0 c.ahead.tail = true

theorem bracketed_of_closesAtType (ended : c.IsEnded) (h : c.closesAtType 1 = true) :
    closesBracket 0 c.ahead.tail = true := by
  rw [closesAtType, closesBeforeType_eq ended, List.map_drop, List.drop_one] at h
  exact closesBracket_of_closesAheadOfType h

theorem bracketed_of_showsNamedArray (ended : c.IsEnded) (h : c.showsNamedArray = true) :
    closesBracket 0 c.ahead.tail = true :=
  bracketed_of_closesAtType ended (Bool.and_eq_true_iff.1 h).2

theorem bracketed_of_showsFieldName (ended : c.IsEnded) (h : c.showsFieldName = true)
    (opens : (c.peek 1).lexeme = .op .leftBracket) : closesBracket 0 c.ahead.tail = true := by
  rw [showsFieldName, opens] at h
  exact bracketed_of_closesAtType ended (Bool.and_eq_true_iff.1 h).2

/-- The lexeme behind the one at the cursor. -/
theorem peek_one_lexeme (ended : c.IsEnded) : (c.peek 1).lexeme = c.ahead.tail.headD .eof := by
  rw [← current_advance, advance, current_lexeme, ahead_pass, List.drop_one]
  rw [show (c.pass 1).stop.lexeme = .eof from ended]

/-- Where the bracket closes inside of the source, the search for it finds the same in the longer one. -/
theorem closesAtType_within (inside : s.Inside c) (found : closesBracket 0 c.ahead.tail = true) :
    (c.within s).closesAtType 1 = c.closesAtType 1 := by
  cases rest : c.rest with
  | nil =>
    rw [ahead, rest] at found
    cases found
  | cons t ts =>
    rw [ahead, rest] at found
    have behind : (c.within s).rest.drop 1 = ts.map (Token.down s.shift) ++ s.after := by
      rw [within, rest]
      rfl
    rw [closesAtType, closesAtType, behind, rest, List.drop_one, List.tail_cons]
    refine closesBeforeType_append (inside.imp id fun h => ⟨found, ?_⟩)
    obtain ⟨us, t', rest', semi⟩ := h
    cases us with
    | nil =>
      obtain ⟨-, rfl⟩ := List.cons.inj (rest.symm.trans rest')
      cases found
    | cons u us =>
      obtain ⟨-, rfl⟩ := List.cons.inj (rest.symm.trans rest')
      change ((us ++ [t']).map Token.lexeme).getLast? ≠ _
      rw [List.map_append, List.getLast?_append]
      simp [semi]

section shows

variable (inside : s.Inside c)

include inside

theorem isIdent_within : (c.within s).current.lexeme.isIdent = c.current.lexeme.isIdent := by
  rw [current_lexeme_within inside]

/-- Behind a token that is no semicolon, the next one is the same. -/
theorem peek_one_within (here : c.current.lexeme ≠ .op .semicolon) :
    ((c.within s).peek 1).lexeme = (c.peek 1).lexeme := by
  refine peek_lexeme_within inside fun i lt => ?_
  obtain rfl : i = 0 := by omega
  rwa [← current_eq_peek]

theorem peek_one_within_of_ident (here : c.current.lexeme.isIdent = true) :
    ((c.within s).peek 1).lexeme = (c.peek 1).lexeme := by
  refine peek_one_within inside fun same => ?_
  rw [same] at here
  cases here

theorem showsTypeArgs_within : (c.within s).showsTypeArgs = c.showsTypeArgs := by
  rw [showsTypeArgs, showsTypeArgs, current_lexeme_within inside]
  by_cases here : c.current.lexeme = .op .leftBracket
  · rw [peek_one_within inside (by rw [here]; decide)]
  · simp only [here, decide_false, Bool.false_and]

theorem showsMethod_within : (c.within s).showsMethod = c.showsMethod := by
  rw [showsMethod, showsMethod, isIdent_within inside]
  cases here : c.current.lexeme.isIdent with
  | true => rw [peek_one_within_of_ident inside here]
  | false => rfl

/-- Where the bracket closes inside of the source, the look for a named array shows the same. -/
theorem showsNamedArray_within (found : c.Bracketed) :
    (c.within s).showsNamedArray = c.showsNamedArray := by
  rw [showsNamedArray, showsNamedArray, isIdent_within inside]
  cases here : c.current.lexeme.isIdent with
  | true =>
    rw [peek_one_within_of_ident inside here]
    by_cases opens : (c.peek 1).lexeme = .op .leftBracket
    · rw [closesAtType_within inside (found here opens)]
    · simp only [opens, decide_false, Bool.and_false, Bool.false_and]
  | false => rfl

/-- Where the bracket closes inside of the source, the look for a name shows the same. -/
theorem showsFieldName_within (found : c.Bracketed) :
    (c.within s).showsFieldName = c.showsFieldName := by
  rw [showsFieldName, showsFieldName, isIdent_within inside]
  cases here : c.current.lexeme.isIdent with
  | true =>
    rw [peek_one_within_of_ident inside here]
    by_cases opens : (c.peek 1).lexeme = .op .leftBracket
    · rw [closesAtType_within inside (found here opens)]
    · split <;> simp_all
  | false => rfl

/-- Whether type parameters follow is told by three lexemes, which are the same. -/
theorem showsTypeParams_within : Parser.showsTypeParams (c.within s) = Parser.showsTypeParams c := by
  rw [Parser.showsTypeParams, Parser.showsTypeParams, current_lexeme_within inside]
  by_cases here : c.current.lexeme = .op .leftBracket
  · rw [peek_one_within inside (by rw [here]; decide)]
    cases named : (c.peek 1).lexeme.isIdent with
    | false => simp only [Bool.and_false, Bool.false_and]
    | true =>
      have before : ∀ i < 2, (c.peek i).lexeme ≠ .op .semicolon := by
        intro i lt same
        obtain rfl | rfl : i = 0 ∨ i = 1 := by omega
        · rw [← current_eq_peek, here] at same
          cases same
        · rw [same] at named
          cases named
      rw [peek_lexeme_within inside before]
  · simp only [here, decide_false, Bool.false_and]

end shows

end Cursor

end Typings
