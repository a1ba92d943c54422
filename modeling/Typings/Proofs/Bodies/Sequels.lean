import Typings.Proofs.Joined.Frame

/-!
# What follows a signature

A source whose last token is a semicolon may be continued in another way: by a semicolon or a brace, and
whatever stands behind it. A cursor before the last token sees the same then, as no look ahead tells the
two apart: neither begins a type, an operator or a list, and no bracket that closes one in the source is
behind its last token (`Cursor.closesAtType_followedBy`).
-/

namespace Typings

/-- A semicolon, or the brace of a body. -/
def Lexeme.followsSignature : Lexeme → Bool
  | .op .semicolon | .op .leftBrace => true
  | _ => false

theorem Lexeme.eq_of_followsSignature {w : Lexeme} (follows : w.followsSignature = true) :
    w = .op .semicolon ∨ w = .op .leftBrace := by
  unfold followsSignature at follows
  split at follows
  · exact .inl rfl
  · exact .inr rfl
  · cases follows

/-- Tokens in the place of the last one, and the end of the text behind them. -/
structure Sequel where
  next : Token
  behind : List Token
  stop : Token
  follows : next.lexeme.followsSignature = true

/-- A sequel begins with a semicolon or a body. -/
theorem Sequel.lexeme_next (s : Sequel) :
    s.next.lexeme = .op .semicolon ∨ s.next.lexeme = .op .leftBrace :=
  Lexeme.eq_of_followsSignature s.follows

namespace Cursor

/-- The cursor at the same place, with a sequel in the place of the last token. -/
def followedBy (c : Cursor) (s : Sequel) : Cursor :=
  { c with rest := c.rest.dropLast ++ s.next :: s.behind, stop := s.stop }

/-- No comment is left. -/
structure Plain (c : Cursor) : Prop where
  ended : c.IsEnded
  own : c.own = []
  trailing : c.trailing = []

/-- So many tokens are ahead at least, and behind them the semicolon that is the last one. -/
def Before (n : Nat) (c : Cursor) : Prop :=
  ∃ ts t, c.rest = ts ++ [t] ∧ t.lexeme = .op .semicolon ∧ n ≤ ts.length

variable {c c' : Cursor} {n : Nat}

/-- What is ahead stays plain. -/
theorem Plain.forward (h : c.Plain) (reaches : c.Reaches c') : c'.Plain where
  ended := reaches.isEnded h.ended
  own := reaches.own.trans h.own
  trailing := List.eq_nil_iff_forall_not_mem.2 fun m mem => by
    have before := reaches.trailing m mem
    rw [h.trailing] at before
    cases before

/-- Tokens that are before the sequel are so for any smaller count. -/
theorem Before.mono {m : Nat} (h : c.Before n) (le : m ≤ n) : c.Before m := by
  obtain ⟨ts, t, rest, semi, many⟩ := h
  exact ⟨ts, t, rest, semi, Nat.le_trans le many⟩

/-- What stood before the sequel did so before. -/
theorem Before.back (h : c'.Before n) (reaches : c.Reaches c') : c.Before n := by
  obtain ⟨ts, t, rest', semi, many⟩ := h
  obtain ⟨us, rest, -⟩ := reaches.tokens
  refine ⟨us ++ ts, t, by rw [rest, rest', List.append_assoc], semi, ?_⟩
  rw [List.length_append]
  exact Nat.le_add_left_of_le many

/-- One token more is ahead before the cursor moves. -/
theorem Before.of_advance (h : c.advance.Before n) : c.Before (n + 1) := by
  obtain ⟨ts, t, rest, semi, many⟩ := h
  cases tokens : c.rest with
  | nil =>
    rw [advance, pass, tokens] at rest
    exact absurd rest.symm (List.append_ne_nil_of_right_ne_nil _ (List.cons_ne_nil _ _))
  | cons u us =>
    rw [advance, pass, tokens] at rest
    have same : us = ts ++ [t] := rest
    exact ⟨u :: ts, t, by rw [tokens, same, List.cons_append], semi, Nat.succ_le_succ many⟩

/-! ## The tokens ahead -/

section looks

variable {s : Sequel}

/-- Up to the first semicolon, the same tokens are ahead; where the last one stands, the sequel
begins. -/
theorem peek_followedBy (before : c.Before n) {i : Nat}
    (words : ∀ j, n ≤ j → j < i → (c.peek j).lexeme ≠ .op .semicolon) :
    (c.followedBy s).peek i = c.peek i ∨
      n ≤ i ∧ (c.peek i).lexeme = .op .semicolon ∧ (c.followedBy s).peek i = s.next := by
  obtain ⟨ts, t, rest, semi, many⟩ := before
  have le : i ≤ ts.length := by
    refine Nat.le_of_not_lt fun lt => words ts.length many lt ?_
    simpa [peek, rest] using semi
  simp only [peek, followedBy, rest, List.dropLast_concat, List.getD_eq_getElem?_getD]
  rcases Nat.lt_or_eq_of_le le with lt | rfl
  · left
    rw [List.getElem?_append_left lt, List.getElem?_append_left lt, List.getElem?_eq_getElem lt]
    rfl
  · right
    refine ⟨many, ?_, ?_⟩
    · simpa using semi
    · simp

/-- So many places ahead, the same token stands. -/
theorem peek_followedBy_lt (before : c.Before n) {i : Nat} (lt : i < n) :
    (c.followedBy s).peek i = c.peek i :=
  (peek_followedBy before fun j le less => absurd (Nat.lt_of_le_of_lt le less) (by omega)).resolve_right
    fun h => absurd h.1 (Nat.not_le.2 lt)

/-- The current token is the same, unless it is the semicolon that the sequel stands for. -/
theorem current_followedBy (before : c.Before 0) :
    (c.followedBy s).current = c.current ∨
      c.current.lexeme = .op .semicolon ∧ (c.followedBy s).current = s.next := by
  rw [current_eq_peek, current_eq_peek]
  exact (peek_followedBy before fun j _ less => absurd less (Nat.not_lt_zero j)).imp_right And.right

theorem current_followedBy_inside (before : c.Before (n + 1)) :
    (c.followedBy s).current = c.current := by
  rw [current_eq_peek, current_eq_peek, peek_followedBy_lt before (Nat.succ_pos n)]

/-- A test that does not tell a brace from a semicolon gives the same, if no semicolon is before. -/
theorem test_peek_followedBy {γ : Type} (test : Lexeme → γ)
    (blind : test (.op .leftBrace) = test (.op .semicolon)) (before : c.Before 0) {i : Nat}
    (words : ∀ j < i, (c.peek j).lexeme ≠ .op .semicolon) :
    test ((c.followedBy s).peek i).lexeme = test (c.peek i).lexeme := by
  rcases peek_followedBy (s := s) before fun j _ => words j with same | ⟨-, semi, edge⟩
  · rw [same]
  · rw [semi, edge]
    rcases s.lexeme_next with here | here
    · rw [here]
    · rw [here, blind]

/-- A test that does not tell a brace from a semicolon gives the same. -/
theorem test_current_followedBy {γ : Type} (test : Lexeme → γ)
    (blind : test (.op .leftBrace) = test (.op .semicolon)) (before : c.Before 0) :
    test (c.followedBy s).current.lexeme = test c.current.lexeme := by
  rw [current_eq_peek, current_eq_peek]
  exact test_peek_followedBy test blind before fun j less => absurd less (Nat.not_lt_zero j)

/-- The cursor moves alike, as long as it stays before the last token. -/
theorem pass_followedBy {k : Nat} (before : (c.pass k).Before n) :
    (c.followedBy s).pass k = (c.pass k).followedBy s := by
  obtain ⟨ts, t, rest, -⟩ := before
  have le : k ≤ c.rest.dropLast.length := by
    have some := congrArg List.length rest
    rw [pass, List.length_drop, List.length_append, List.length_singleton] at some
    rw [List.length_dropLast]
    omega
  have taken : c.rest.dropLast.take k = c.rest.take k := by
    rw [List.dropLast_eq_take, List.take_take, Nat.min_eq_left]
    rwa [List.length_dropLast] at le
  have left : (c.rest.drop k).dropLast = c.rest.dropLast.drop k := by
    rw [List.dropLast_eq_take, List.dropLast_eq_take, List.drop_take, List.length_drop]
    congr 1
    omega
  simp only [pass, followedBy, List.take_append_of_le_length le, List.drop_append_of_le_length le,
    taken, left]

/-! ## Looks ahead -/

/-- One token ahead, such a test gives the same, too. -/
theorem peek_one_followedBy {γ : Type} (test : Lexeme → γ)
    (blind : test (.op .leftBrace) = test (.op .semicolon)) (before : c.Before 0)
    (here : c.current.lexeme ≠ .op .semicolon) :
    test ((c.followedBy s).peek 1).lexeme = test (c.peek 1).lexeme := by
  refine test_peek_followedBy test blind before fun j lt => ?_
  obtain rfl : j = 0 := by omega
  rwa [← current_eq_peek]

theorem isIdent_followedBy (before : c.Before 0) :
    (c.followedBy s).current.lexeme.isIdent = c.current.lexeme.isIdent :=
  test_current_followedBy Lexeme.isIdent rfl before

theorem ne_semicolon_of_isIdent {w : Lexeme} (h : w.isIdent = true) : w ≠ .op .semicolon := by
  rintro rfl
  cases h

/-- A sequel makes no type arguments of what are none. -/
theorem showsTypeArgs_followedBy (before : c.Before 0) :
    (c.followedBy s).showsTypeArgs = c.showsTypeArgs := by
  rw [showsTypeArgs, showsTypeArgs,
    test_current_followedBy (fun w => decide (w = .op .leftBracket)) rfl before]
  by_cases here : c.current.lexeme = .op .leftBracket
  · rw [peek_one_followedBy (fun w => decide (w ≠ .op .rightBracket)) rfl before
      (by rw [here]; decide)]
  · simp only [here, decide_false, Bool.false_and]

/-- A sequel makes no method of what is none. -/
theorem showsMethod_followedBy (before : c.Before 0) :
    (c.followedBy s).showsMethod = c.showsMethod := by
  rw [showsMethod, showsMethod, isIdent_followedBy before]
  cases here : c.current.lexeme.isIdent with
  | true =>
    rw [peek_one_followedBy (fun w => decide (w = .op .leftParen)) rfl before
      (ne_semicolon_of_isIdent here)]
  | false => rfl

end looks

end Cursor

/-! ## Brackets -/

/-- A semicolon at the end closes no bracket. -/
theorem closesBracket_concat_semicolon (depth : Int) (us : List Lexeme) :
    closesBracket depth (us ++ [.op .semicolon]) = closesBracket depth us := by
  fun_induction closesBracket depth us with
  | case1 => rfl
  | case2 depth us ih => exact ih
  | case3 depth us ih => rw [List.cons_append, closesBracket, ih]
  | case4 depth w us opening closing ih =>
    rw [List.cons_append, closesBracket_cons (fun same => opening same) (fun same => closing same), ih]

/-- If the bracket is closed before the last token, the search ends there. -/
theorem closesBeforeType_followedBy (s : Sequel) {stop t : Token} (semi : t.lexeme = .op .semicolon)
    {depth : Int} {us : List Token} (found : closesBracket depth (us.map Token.lexeme) = true) :
    Cursor.closesBeforeType s.stop depth (us ++ s.next :: s.behind) =
      Cursor.closesBeforeType stop depth (us ++ [t]) := by
  induction us generalizing depth with
  | nil => cases found
  | cons u us ih =>
    rw [List.map_cons, closesBracket.eq_def] at found
    rw [List.cons_append, List.cons_append, Cursor.closesBeforeType, Cursor.closesBeforeType]
    generalize u.lexeme = w at found
    split
    · exact ih found
    · by_cases one : depth = 1
      · rw [if_pos one, if_pos one]
        cases us with
        | nil =>
          have next : s.next.lexeme.startsType = false := by
            rcases s.lexeme_next with here | here <;> rw [here] <;> rfl
          rw [List.nil_append, List.nil_append, List.headD_cons, List.headD_cons, next, semi]
          rfl
        | cons => rfl
      · rw [if_neg one, if_neg one]
        refine ih ?_
        simpa [one] using found
    · refine ih ?_
      split at found
      · cases found
      · simp_all
      · simp_all
      · simp_all

namespace Cursor

variable {c : Cursor} {s : Sequel}

/-- Where a bracket is closed before the sequel, what is behind it looks the same. -/
theorem closesAtType_followedBy (before : c.Before 0)
    (found : closesBracket 0 c.ahead.tail = true) :
    (c.followedBy s).closesAtType 1 = c.closesAtType 1 := by
  obtain ⟨ts, t, rest, semi, -⟩ := before
  cases ts with
  | nil =>
    rw [ahead, rest] at found
    cases found
  | cons u us =>
    have inside : closesBracket 0 (us.map Token.lexeme) = true := by
      rw [← closesBracket_concat_semicolon, ← semi, ← List.map_singleton, ← List.map_append]
      rw [ahead, rest] at found
      exact found
    have behind : (c.followedBy s).rest.drop 1 = us ++ s.next :: s.behind := by
      rw [followedBy, rest, List.dropLast_concat]
      rfl
    rw [closesAtType, closesAtType, behind, rest]
    exact closesBeforeType_followedBy s semi inside

/-- Where the brackets are closed, an array behind a name looks the same. -/
theorem showsNamedArray_followedBy (before : c.Before 0) (found : c.Bracketed) :
    (c.followedBy s).showsNamedArray = c.showsNamedArray := by
  rw [showsNamedArray, showsNamedArray, isIdent_followedBy before]
  cases here : c.current.lexeme.isIdent with
  | true =>
    rw [peek_one_followedBy (fun w => decide (w = .op .leftBracket)) rfl before
      (ne_semicolon_of_isIdent here)]
    by_cases opens : (c.peek 1).lexeme = .op .leftBracket
    · rw [closesAtType_followedBy before (found here opens)]
    · simp only [opens, decide_false, Bool.and_false, Bool.false_and]
  | false => rfl

/-- Two tokens before the last one are enough to tell the name of a field. -/
theorem showsFieldName_followedBy (before : c.Before 0) (found : c.Bracketed)
    (two : c.current.lexeme.isIdent = true → c.Before 2) :
    (c.followedBy s).showsFieldName = c.showsFieldName := by
  rw [showsFieldName, showsFieldName, isIdent_followedBy before]
  cases here : c.current.lexeme.isIdent with
  | true =>
    rw [peek_followedBy_lt (two here) (Nat.lt_succ_self 1)]
    by_cases opens : (c.peek 1).lexeme = .op .leftBracket
    · rw [closesAtType_followedBy before (found here opens)]
    · split <;> simp_all
  | false => rfl

end Cursor

end Typings
