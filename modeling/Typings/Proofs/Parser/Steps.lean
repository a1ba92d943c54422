import Typings.Parser.Basic

/-!
# Steps of a parser

How the run of a parser that is composed of others falls apart into their runs, and which lexemes
each of the simplest parsers passes. `Cursor.Passes c ws c'` says that the way from `c` to `c'` leads
over the lexemes `ws`.
-/

namespace Typings

namespace Cursor

/-- The lexemes at and behind the cursor. -/
def ahead (c : Cursor) : List Lexeme := c.rest.map Token.lexeme

/-- Behind the tokens stands the one that ends the text. -/
def IsEnded (c : Cursor) : Prop := c.stop.lexeme = .eof

/-- The lexeme at the cursor is the first ahead, or that of the mark of the end. -/
theorem current_lexeme (c : Cursor) : c.current.lexeme = c.ahead.headD c.stop.lexeme := by
  unfold current ahead
  cases c.rest <;> rfl

theorem current_lexeme_of_ahead {c : Cursor} {w : Lexeme} {ws : List Lexeme}
    (h : c.ahead = w :: ws) : c.current.lexeme = w := by
  rw [current_lexeme, h]
  rfl

@[simp] theorem ahead_pass (c : Cursor) (n : Nat) : (c.pass n).ahead = c.ahead.drop n :=
  List.map_drop

theorem ahead_advance {c : Cursor} {w : Lexeme} {ws : List Lexeme} (h : c.ahead = w :: ws) :
    c.advance.ahead = ws := by
  rw [advance, ahead_pass, h]
  rfl

theorem current_advance (c : Cursor) : c.advance.current = c.peek 1 := by
  rw [current, advance, pass, peek, List.headD_eq_head?_getD, List.head?_drop,
    List.getD_eq_getElem?_getD]

/-- From one cursor to another, some lexemes are passed, and no others. -/
structure Passes (c : Cursor) (ws : List Lexeme) (c' : Cursor) : Prop where
  ahead_eq : c.ahead = ws ++ c'.ahead
  ended : c'.IsEnded

namespace Passes

variable {c c' c'' : Cursor} {us ws : List Lexeme}

theorem refl (h : c.IsEnded) : c.Passes [] c := ⟨rfl, h⟩

/-- What is passed on two ways in a row is passed on the whole way. -/
theorem trans (h : c.Passes us c') (k : c'.Passes ws c'') : c.Passes (us ++ ws) c'' :=
  ⟨by rw [h.ahead_eq, k.ahead_eq, List.append_assoc], k.ended⟩

/-- One lexeme, and then others. -/
theorem cons {w : Lexeme} (h : c.Passes [w] c') (k : c'.Passes ws c'') : c.Passes (w :: ws) c'' :=
  h.trans k

/-- Claiming a comment passes nothing. -/
theorem claim (h : c.Passes us c') : c.Passes us c'.dropCommentBehind := ⟨h.ahead_eq, h.ended⟩

end Passes

/-- Passing the token at the cursor, unless the text ends there. -/
theorem passes_advance {c : Cursor} {w : Lexeme} (ended : c.IsEnded) (here : c.current.lexeme = w)
    (h : w ≠ .eof) : c.Passes [w] c.advance := by
  refine ⟨?_, ended⟩
  rw [advance, ahead_pass]
  rw [current_lexeme] at here
  cases ha : c.ahead with
  | nil =>
    rw [ha] at here
    exact absurd (here.symm.trans ended) h
  | cons v vs =>
    rw [ha] at here
    rw [← here]
    rfl

theorem current_of_rest {c : Cursor} {t : Token} {ts : List Token} (rest : c.rest = t :: ts) :
    c.current = t := by
  rw [current, rest]
  rfl

/-- Passing semicolons drops them from the tokens ahead. -/
theorem rest_passSemis (c : Cursor) :
    c.passSemis.rest = c.rest.dropWhile fun t => t.lexeme = .op .semicolon := by
  let isSemi : Token → Bool := fun t => t.lexeme = .op .semicolon
  have whole : c.rest.takeWhile isSemi ++ c.rest.dropWhile isSemi = c.rest :=
    List.takeWhile_append_dropWhile
  calc
    c.passSemis.rest = (c.rest.takeWhile isSemi ++ c.rest.dropWhile isSemi).drop
        (c.rest.takeWhile isSemi).length := by rw [whole]; rfl
    _ = c.rest.dropWhile isSemi := List.drop_left

/-- Passing semicolons. -/
theorem passes_passSemis {c : Cursor} (ended : c.IsEnded) :
    ∃ ws, c.Passes ws c.passSemis ∧ ∀ w ∈ ws, w = .op .semicolon := by
  let isSemi : Token → Bool := fun t => t.lexeme = .op .semicolon
  refine ⟨(c.rest.takeWhile isSemi).map Token.lexeme, ⟨?_, ended⟩, ?_⟩
  · rw [ahead, ahead, rest_passSemis, ← List.map_append, List.takeWhile_append_dropWhile]
  · intro w mem
    obtain ⟨t, ht, rfl⟩ := List.mem_map.1 mem
    simpa [isSemi] using List.all_eq_true.1 List.all_takeWhile t ht

end Cursor

namespace Parser

variable {α β : Type} {c c' c'' : Cursor}

/-- A parser that is followed by another succeeds if both do, one after the other. -/
theorem bind_eq_ok {p : Parser α} {f : α → Parser β} {y : β} :
    (p >>= f) c = .ok (y, c'') ↔ ∃ x c', p c = .ok (x, c') ∧ f x c' = .ok (y, c'') := by
  show (p c >>= fun r => f r.1 r.2) = _ ↔ _
  cases p c with
  | error e =>
    constructor
    · intro h
      cases h
    · rintro ⟨_, _, h, _⟩
      cases h
  | ok r =>
    constructor
    · intro h
      exact ⟨r.1, r.2, rfl, h⟩
    · rintro ⟨x, c', h, k⟩
      cases h
      exact k

/-- A sequence goes on with what its first step gives. -/
theorem bind_of_ok {p : Parser α} {f : α → Parser β} {x : α} (h : p c = .ok (x, c')) :
    (p >>= f) c = f x c' := by
  show (p c >>= fun r => f r.1 r.2) = _
  rw [h]
  rfl

/-- A sequence fails with its first step. -/
theorem bind_of_error {p : Parser α} {f : α → Parser β} {e : ParseError} (h : p c = .error e) :
    (p >>= f) c = .error e := by
  show (p c >>= fun r => f r.1 r.2) = _
  rw [h]
  rfl

/-- Giving a value passes nothing. -/
theorem pure_eq_ok {x y : α} : (pure x : Parser α) c = .ok (y, c') ↔ x = y ∧ c = c' := by
  show Except.ok (x, c) = .ok (y, c') ↔ _
  rw [Except.ok.injEq, Prod.mk.injEq]

theorem fail_ne_ok {cause : ParseCause} {x : α} : fail cause c ≠ .ok (x, c') := nofun

/-! ## Rounds -/

/-- Two recursions on their rounds, the second with no fewer of them, take their rounds together: when the
first has none left, it does not matter how many the second has. -/
theorem rounds_induction {motive : (i j : Nat) → i ≤ j → Prop} (zero : ∀ j, motive 0 j (Nat.zero_le j))
    (succ : ∀ i j le, motive i j le → motive (i + 1) (j + 1) (Nat.succ_le_succ le)) {i j : Nat}
    (le : i ≤ j) : motive i j le := by
  induction i generalizing j with
  | zero => exact zero j
  | succ i ih =>
    cases j with
    | zero => exact absurd le (Nat.not_succ_le_zero i)
    | succ j => exact succ i j _ (ih (Nat.le_of_succ_le_succ le))

/-! ## Looking without moving -/

theorem ask_bind {γ : Type} (g : Cursor → γ) (f : γ → Parser β) (c : Cursor) :
    (ask g >>= f) c = f (g c) c := rfl

theorem current_bind (f : Token → Parser β) (c : Cursor) : (current >>= f) c = f c.current c := rfl

theorem isAt_bind (w : Lexeme) (f : Bool → Parser β) (c : Cursor) :
    (isAt w >>= f) c = f (c.current.lexeme = w) c := rfl

theorem docHere_bind (f : Option CommentGroup → Parser β) (c : Cursor) :
    (docHere >>= f) c = f (c.docAbove c.current.pos.line) c := rfl

/-! ## Moving -/

theorem advance_bind (f : Token → Parser β) (c : Cursor) :
    (advance >>= f) c = f c.current c.advance := rfl

theorem commentBehind_bind (f : Option CommentGroup → Parser β) (c : Cursor) :
    (commentBehind >>= f) c = f c.commentBehind c.dropCommentBehind := rfl

theorem passSemis_bind (f : Unit → Parser β) (c : Cursor) :
    (passSemis >>= f) c = f () c.passSemis := rfl

theorem bounded_bind (p : Nat → Parser α) (f : α → Parser β) (c : Cursor) :
    (bounded p >>= f) c = (p (c.rest.length + 1) >>= f) c := rfl

/-- An expected lexeme is at the cursor. -/
theorem current_of_expect {w : Lexeme} {t : Token} (run : expect w c = .ok (t, c')) :
    c.current.lexeme = w ∧ c' = c.advance := by
  rw [expect, isAt_bind] at run
  split at run
  · next here =>
    cases run
    exact ⟨of_decide_eq_true here, rfl⟩
  · exact absurd run fail_ne_ok

/-- An expected lexeme is what is passed. -/
theorem passes_of_expect {w : Lexeme} {t : Token} (ended : c.IsEnded)
    (run : expect w c = .ok (t, c')) (h : w ≠ .eof) : c.Passes [w] c' := by
  obtain ⟨here, rfl⟩ := current_of_expect run
  exact Cursor.passes_advance ended here h

/-- A name is what is passed for it. -/
theorem passes_of_ident {name : String} (ended : c.IsEnded) (run : ident c = .ok (name, c')) :
    c.Passes [.ident name] c' := by
  obtain ⟨t, c₁, hrun, last⟩ := bind_eq_ok.1 run
  obtain ⟨rfl, rfl⟩ := pure_eq_ok.1 last
  change (ask (fun c => c.current.lexeme.isIdent) >>= _) c = _ at hrun
  rw [ask_bind] at hrun
  split at hrun
  · next here =>
    cases hrun
    cases hl : c.current.lexeme with
    | ident name => exact Cursor.passes_advance ended hl nofun
    | _ => rw [hl] at here; cases here
  · exact absurd hrun fail_ne_ok

end Parser

end Typings
