import Typings.Proofs.Joined.Frame

/-!
# Parsers inside a longer source

`Framed p q` says that whatever `p` gives for a source, `q` gives for it inside of a longer one, as long
as `p` stays before the last semicolon. It is closed under all ways to put parsers together. Bounds
depend on the length of a source, so that `q` may be `p` with a larger one. A parser that claims the
comment behind a token needs a token of its own source behind it: then it is framed only once `started`.
-/

namespace Typings.Parser

variable {α β γ : Type}

/-- What `p` gives for a source, `q` gives for that source inside of a longer one. -/
structure Framed (started : Bool) (p q : Parser α) : Prop where
  forward : ∀ {c c' : Cursor} {x : α}, p c = .ok (x, c') → c.Reaches c'
  frame : ∀ {s : Surroundings} {c c' : Cursor} {x : α}, p c = .ok (x, c') → s.Clear c → s.Inside c' →
    (started = true → c.passed ≠ []) → q (c.within s) = .ok (x, c'.within s)

namespace Framed

variable {st : Bool} {p q : Parser α} {f g : α → Parser β}

theorem pure (x : α) : Framed st (Pure.pure x) (Pure.pure x) where
  forward run := by
    obtain ⟨-, rfl⟩ := pure_eq_ok.1 run
    exact .refl _
  frame run _ _ _ := by
    obtain ⟨rfl, rfl⟩ := pure_eq_ok.1 run
    rfl

theorem fail (cause : ParseCause) (q : Parser α) : Framed st (Parser.fail cause) q where
  forward run := absurd run fail_ne_ok
  frame run _ _ _ := absurd run fail_ne_ok

/-- A step is taken in the longer source from where the one before it ends. -/
theorem bind (h : Framed st p q) (k : ∀ x, Framed st (f x) (g x)) : Framed st (p >>= f) (q >>= g) where
  forward run := by
    obtain ⟨x, c₁, first, rest⟩ := bind_eq_ok.1 run
    exact (h.forward first).trans ((k x).forward rest)
  frame run clear inside from_ := by
    obtain ⟨x, c₁, first, rest⟩ := bind_eq_ok.1 run
    have reaches := h.forward first
    refine bind_eq_ok.2 ⟨x, _, h.frame first clear (inside.back ((k x).forward rest)) from_, ?_⟩
    exact (k x).frame rest (clear.forward reaches) inside fun go => reaches.passed_ne_nil (from_ go)

/-! ## Looking ahead -/

/-- A look inside of the source shows the same in a longer one. -/
theorem ask {h : Cursor → γ} (same : ∀ (s : Surroundings) (c : Cursor), s.Inside c →
    h (c.within s) = h c) : Framed st (Parser.ask h) (Parser.ask h) where
  forward run := by
    cases run
    exact .refl _
  frame {s c c' x} run _ inside _ := by
    cases run
    exact congrArg (fun x => Except.ok (x, c.within s)) (same s c inside)

theorem isAt (w : Lexeme) : Framed st (Parser.isAt w) (Parser.isAt w) :=
  ask fun s c inside => by rw [Cursor.current_lexeme_within inside]

/-- Documentation is told by lines, and those of the surroundings are apart. -/
theorem docHere : Framed st Parser.docHere Parser.docHere where
  forward run := by
    cases run
    exact .refl _
  frame {s c c' x} run clear inside _ := by
    cases run
    have line : (c.within s).current.pos.line = c.current.pos.line + s.shift := by
      rw [Cursor.current_within inside]
      rfl
    have apart : s.Apart (c.current.pos.line + s.shift) := by
      cases rest : c.rest with
      | nil =>
        rw [Cursor.current, rest]
        exact clear.stop
      | cons t ts =>
        rw [Cursor.current, rest]
        exact clear.rest t (rest ▸ List.mem_cons_self)
    have same := Cursor.docAbove_within apart clear.own
    rw [← line] at same
    exact congrArg (fun doc => Except.ok (doc, c.within s)) same

/-- What depends on the lexeme at the cursor. -/
theorem current {f g : Token → Parser β} (h : ∀ t u : Token, u.lexeme = t.lexeme → Framed st (f t) (g u)) :
    Framed st (Parser.current >>= f) (Parser.current >>= g) where
  forward {c c' x} run := (h c.current c.current rfl).forward run
  frame {s c c' x} run clear inside from_ := by
    rw [current_bind] at run ⊢
    have here := inside.back ((h c.current c.current rfl).forward run)
    exact (h _ _ (Cursor.current_lexeme_within here)).frame run clear inside from_

/-! ## Moving -/

/-- A token is passed in the longer source; what follows may differ by its lexeme only. -/
theorem advance {f g : Token → Parser β} (h : ∀ t u : Token, u.lexeme = t.lexeme → Framed st (f t) (g u)) :
    Framed st (Parser.advance >>= f) (Parser.advance >>= g) where
  forward {c c' x} run := (Cursor.Reaches.pass c 1).trans ((h c.current c.current rfl).forward run)
  frame {s c c' x} run clear inside from_ := by
    rw [advance_bind] at run ⊢
    have reaches := Cursor.Reaches.pass c 1
    have further := inside.back ((h c.current c.current rfl).forward run)
    have here := further.back reaches
    rw [Cursor.advance_within here]
    exact (h _ _ (Cursor.current_lexeme_within here)).frame run (clear.forward reaches) inside
      fun go => reaches.passed_ne_nil (from_ go)

/-- Passing a token after a look at it that the end of the text does not stand: from there on, there
is a token behind. -/
theorem advanceIf (look : Cursor → Bool) {cause : ParseCause} {f g : Token → Parser β}
    (same : ∀ (s : Surroundings) (c : Cursor), s.Inside c → look (c.within s) = look c)
    (some : ∀ c : Cursor, c.IsEnded → look c = true → c.rest ≠ [])
    (h : ∀ t u : Token, u.lexeme = t.lexeme → Framed true (f t) (g u)) :
    Framed st ((do if ← Parser.ask look then Parser.advance else Parser.fail cause) >>= f)
      ((do if ← Parser.ask look then Parser.advance else Parser.fail cause) >>= g) := by
  have run_eq : ∀ {c c' : Cursor} {x : β},
      ((do if ← Parser.ask look then Parser.advance else Parser.fail cause) >>= f) c = .ok (x, c') →
        look c = true ∧ f c.current c.advance = .ok (x, c') := by
    intro c c' x run
    obtain ⟨t, c₁, first, rest⟩ := bind_eq_ok.1 run
    rw [ask_bind] at first
    split at first
    · next here =>
      cases first
      exact ⟨here, rest⟩
    · exact absurd first fail_ne_ok
  constructor
  · intro c c' x run
    obtain ⟨-, rest⟩ := run_eq run
    exact (Cursor.Reaches.pass c 1).trans ((h c.current c.current rfl).forward rest)
  · intro s c c' x run clear inside _
    obtain ⟨looks, rest⟩ := run_eq run
    have reaches := Cursor.Reaches.pass c 1
    have here := (inside.back ((h c.current c.current rfl).forward rest)).back reaches
    have started : c.advance.passed ≠ [] := by
      obtain ⟨t, ts, rest⟩ := List.exists_cons_of_ne_nil (some c clear.ended looks)
      rw [Cursor.advance, Cursor.pass, rest]
      exact List.cons_ne_nil _ _
    refine bind_eq_ok.2 ⟨(c.within s).current, c.advance.within s, ?_, ?_⟩
    · rw [ask_bind, same s c here, if_pos looks, ← Cursor.advance_within here]
      rfl
    · exact (h _ _ (Cursor.current_lexeme_within here)).frame rest (clear.forward reaches) inside
        fun _ => started

/-- An expected lexeme is passed: behind it, the parser has started. -/
theorem expect {w : Lexeme} {f g : Token → Parser β} (some : w ≠ .eof)
    (h : ∀ t u : Token, Framed true (f t) (g u)) :
    Framed st (Parser.expect w >>= f) (Parser.expect w >>= g) := by
  refine advanceIf (fun c => c.current.lexeme = w) ?_ ?_ fun t u _ => h t u
  · intro s c inside
    rw [Cursor.current_lexeme_within inside]
  · intro c ended looks nothing
    rw [Cursor.current, nothing] at looks
    exact some ((of_decide_eq_true looks).symm.trans ended)

theorem identToken {f g : Token → Parser β}
    (h : ∀ t u : Token, u.lexeme = t.lexeme → Framed true (f t) (g u)) :
    Framed st (Parser.identToken >>= f) (Parser.identToken >>= g) := by
  refine advanceIf (fun c => c.current.lexeme.isIdent) ?_ ?_ h
  · intro s c inside
    rw [Cursor.current_lexeme_within inside]
  · intro c ended looks nothing
    rw [Cursor.current, nothing, List.headD_nil, show c.stop.lexeme = .eof from ended] at looks
    cases looks

theorem ident : Framed st Parser.ident Parser.ident :=
  identToken fun t u same => by rw [same]; exact pure _

/-- Behind a name, there is a token behind. -/
theorem afterIdent {f g : String → Parser β} (h : ∀ name, Framed true (f name) (g name)) :
    Framed st (Parser.ident >>= f) (Parser.ident >>= g) := by
  rw [Parser.ident, bind_assoc, bind_assoc]
  refine identToken fun t u same => ?_
  rw [same, pure_bind, pure_bind]
  exact h _

/-- Semicolons are passed up to the end of the source, where the longer one goes on with none. -/
theorem passSemis : Framed st Parser.passSemis Parser.passSemis where
  forward run := by
    cases run
    exact .pass _ _
  frame {s c c' x} run clear inside _ := by
    cases run
    let isSemi : Token → Bool := fun t => t.lexeme = .op .semicolon
    have le : (c.rest.takeWhile isSemi).length ≤ c.rest.length :=
      (List.takeWhile_sublist _).length_le
    have lexemes : (c.rest.map (Token.down s.shift)).takeWhile isSemi =
        (c.rest.takeWhile isSemi).map (Token.down s.shift) := List.takeWhile_map
    have same : ((c.within s).rest.takeWhile isSemi).length = (c.rest.takeWhile isSemi).length := by
      rcases inside with ⟨nothing, -⟩ | ⟨ts, t, rest, -⟩
      · rw [Cursor.within, nothing, List.append_nil, lexemes, List.length_map]
      · have left : (c.rest.drop (c.rest.takeWhile isSemi).length).length = (ts ++ [t]).length :=
          congrArg List.length rest
        rw [List.length_drop, List.length_append, List.length_singleton] at left
        rw [Cursor.within, List.takeWhile_append, lexemes, List.length_map, List.length_map,
          if_neg (by omega), List.length_map]
    have moved : (c.within s).passSemis = c.passSemis.within s := by
      rw [Cursor.passSemis, same]
      exact Cursor.pass_within _ (.inr le)
    exact congrArg (fun c => Except.ok ((), c)) moved

theorem endStatement : Framed st Parser.endStatement Parser.endStatement := by
  refine current fun t u same => ?_
  rw [same]
  split
  · exact advance fun _ _ _ => pure _
  · exact pure _
  · exact pure _
  · exact pure _
  · exact fail _ _

/-- An item and the end of its statement. -/
theorem statement {p q : Parser α} (h : Framed st p q) :
    Framed st (do let x ← p; Parser.endStatement; Pure.pure x)
      (do let x ← q; Parser.endStatement; Pure.pure x) :=
  bind h fun x => bind endStatement fun _ => pure x

/-- The comment behind the last token is found by the token's line, and those of the surroundings are
elsewhere. -/
theorem commentBehind : Framed true Parser.commentBehind Parser.commentBehind where
  forward run := by
    cases run
    exact .dropCommentBehind _
  frame {s c c' x} run clear inside from_ := by
    cases run
    have here := Surroundings.Inside.back inside (.dropCommentBehind c)
    obtain ⟨same, gone⟩ := Cursor.commentBehind_within clear here (from_ rfl)
    show Except.ok ((c.within s).commentBehind, (c.within s).dropCommentBehind) = _
    rw [same, gone]

/-! ## Loops -/

/-- In a longer source the bound is larger. -/
theorem bounded {p q : Nat → Parser α} (h : ∀ n m, n ≤ m → Framed st (p n) (q m)) :
    Framed st (Parser.bounded p) (Parser.bounded q) where
  forward {c c' x} run := (h _ _ (Nat.le_refl (c.rest.length + 1))).forward run
  frame {s c c' x} run clear inside from_ := by
    refine (h _ _ (Nat.succ_le_succ ?_)).frame run clear inside from_
    simp [Cursor.within]

/-- Items are parsed alike one by one, with as many rounds or more. -/
theorem itemsUntil {close : Lexeme} {item item' : Parser α} (h : Framed st item item') {n m : Nat}
    (le : n ≤ m) : Framed st (Parser.itemsUntil close item n) (Parser.itemsUntil close item' m) := by
  induction le using rounds_induction with
  | zero => exact fail _ _
  | succ n m _ ih =>
    refine bind (isAt close) fun closed => ?_
    cases closed with
    | true => exact pure _
    | false =>
      refine bind (isAt _) fun semi => ?_
      cases semi with
      | true => exact advance fun _ _ _ => ih
      | false => exact bind h fun x => bind ih fun xs => pure _

theorem operandsAfter {isOperator : Lexeme → Bool} {operand operand' : Parser α}
    (h : Framed st operand operand') {n m : Nat} (le : n ≤ m) :
    Framed st (Parser.operandsAfter isOperator operand n)
      (Parser.operandsAfter isOperator operand' m) := by
  induction le using rounds_induction with
  | zero => exact fail _ _
  | succ n m _ ih =>
    refine current fun t u same => ?_
    rw [same]
    split
    · exact advance fun _ _ _ => bind h fun x => bind ih fun xs => pure _
    · exact pure _

theorem commaItems {close : Lexeme} {item item' : Parser α} (h : Framed st item item') {n m : Nat}
    (le : n ≤ m) : Framed st (Parser.commaItems close item n) (Parser.commaItems close item' m) := by
  induction le using rounds_induction with
  | zero => exact fail _ _
  | succ n m _ ih =>
    refine bind (isAt close) fun closed => ?_
    cases closed with
    | true => exact pure _
    | false =>
      refine bind h fun x => bind (isAt _) fun comma => ?_
      cases comma with
      | true => exact advance fun _ _ _ => bind ih fun xs => pure _
      | false => exact pure _

theorem moreNames {n m : Nat} (le : n ≤ m) : Framed st (Parser.moreNames n) (Parser.moreNames m) := by
  induction le using rounds_induction with
  | zero => exact fail _ _
  | succ n m _ ih =>
    refine bind (isAt _) fun comma => ?_
    cases comma with
    | true => exact advance fun _ _ _ => bind ident fun name => bind ih fun names => pure _
    | false => exact pure _

end Framed

end Typings.Parser
