import Typings.Proofs.Bodies.Sequels

/-!
# Parsers before another sequel

`Kept n p q` says that whatever `p` gives while so many tokens are left before the last semicolon, `q`
gives if something else stands in the place of that semicolon. It is closed under all ways to put
parsers together. A look at a token that a brace would change needs a token before the semicolon, and so
a parser behind it that passes one (`Kept.expect`, `Kept.advance`).
-/

namespace Typings.Parser

variable {α β γ : Type}

/-- What `p` gives before the last token, `q` gives before a sequel in its place. -/
structure Kept (n : Nat) (p q : Parser α) : Prop where
  forward : ∀ {c c' : Cursor} {x : α}, p c = .ok (x, c') → c.Reaches c'
  keep : ∀ {s : Sequel} {c c' : Cursor} {x : α}, p c = .ok (x, c') → c.Plain → c'.Before n →
    q (c.followedBy s) = .ok (x, c'.followedBy s)

namespace Kept

variable {n : Nat} {p q : Parser α} {f g : α → Parser β}

/-- What is kept with a body to come is kept with a further one. -/
theorem mono {m : Nat} (h : Kept n p q) (le : n ≤ m) : Kept m p q :=
  ⟨h.forward, fun run plain before => h.keep run plain (before.mono le)⟩

/-- A value that is given without a look at the tokens is kept. -/
theorem pure (x : α) : Kept n (Pure.pure x) (Pure.pure x) where
  forward run := by
    obtain ⟨-, rfl⟩ := pure_eq_ok.1 run
    exact .refl _
  keep run _ _ := by
    obtain ⟨rfl, rfl⟩ := pure_eq_ok.1 run
    rfl

/-- A step that fails has no result to keep. -/
theorem fail (cause : ParseCause) (q : Parser α) : Kept n (Parser.fail cause) q where
  forward run := absurd run fail_ne_ok
  keep run _ _ := absurd run fail_ne_ok

/-- Steps that are kept, one behind the other, are kept. -/
theorem bind (h : Kept n p q) (k : ∀ x, Kept n (f x) (g x)) : Kept n (p >>= f) (q >>= g) where
  forward run := by
    obtain ⟨x, c₁, first, rest⟩ := bind_eq_ok.1 run
    exact (h.forward first).trans ((k x).forward rest)
  keep run plain before := by
    obtain ⟨x, c₁, first, rest⟩ := bind_eq_ok.1 run
    have further := before.back ((k x).forward rest)
    refine bind_eq_ok.2 ⟨x, _, h.keep first plain further, ?_⟩
    exact (k x).keep rest (plain.forward (h.forward first)) before

/-! ## Looking ahead -/

/-- A look that may rely on what the parser behind it reads. -/
theorem askIf {look : Cursor → γ} {f g : γ → Parser β} (sure : Cursor → Prop)
    (same : ∀ {s : Sequel} {c : Cursor}, c.Before n → sure c → look (c.followedBy s) = look c)
    (found : ∀ {c c' : Cursor} {x : β}, c.IsEnded → f (look c) c = .ok (x, c') → c'.Before n → sure c)
    (h : ∀ b, Kept n (f b) (g b)) : Kept n (Parser.ask look >>= f) (Parser.ask look >>= g) where
  forward {c c' x} run := (h (look c)).forward run
  keep {s c c' x} run plain before := by
    rw [ask_bind] at run ⊢
    have here := before.back ((h (look c)).forward run)
    rw [same here (found plain.ended run before)]
    exact (h (look c)).keep run plain before

/-- A look that does not reach behind the statement shows the same with any sequel. -/
theorem ask {look : Cursor → γ} {f g : γ → Parser β}
    (same : ∀ {s : Sequel} {c : Cursor}, c.Before n → look (c.followedBy s) = look c)
    (h : ∀ b, Kept n (f b) (g b)) : Kept n (Parser.ask look >>= f) (Parser.ask look >>= g) :=
  askIf (fun _ => True) (fun before _ => same before) (fun _ _ _ => trivial) h

/-- A look for what begins no sequel. -/
theorem isAt {w : Lexeme} {f g : Bool → Parser β} (other : w.followsSignature = false)
    (h : ∀ b, Kept n (f b) (g b)) : Kept n (Parser.isAt w >>= f) (Parser.isAt w >>= g) := by
  refine ask (fun before => ?_) h
  refine Cursor.test_current_followedBy (fun v => decide (v = w)) ?_ (before.mono (Nat.zero_le n))
  rw [decide_eq_false, decide_eq_false]
  · rintro rfl
    cases other
  · rintro rfl
    cases other

/-- Before the last token, a look for any lexeme. -/
theorem isAtInside (w : Lexeme) {f g : Bool → Parser β} (h : ∀ b, Kept (n + 1) (f b) (g b)) :
    Kept (n + 1) (Parser.isAt w >>= f) (Parser.isAt w >>= g) :=
  ask (fun before => by rw [Cursor.current_followedBy_inside before]) h

/-- The comments above do not depend on what is behind the statement. -/
theorem docHere {f g : Option CommentGroup → Parser β} (h : ∀ doc, Kept n (f doc) (g doc)) :
    Kept n (Parser.docHere >>= f) (Parser.docHere >>= g) where
  forward {c c' x} run := (h (c.docAbove c.current.pos.line)).forward run
  keep {s c c' x} run plain before := by
    rw [docHere_bind] at run ⊢
    have none : ∀ line, c.docAbove line = .none := fun line => by
      rw [Cursor.docAbove, plain.own]
      rfl
    have none' : ∀ line, (c.followedBy s).docAbove line = .none := none
    rw [none] at run
    rw [none']
    exact (h .none).keep run plain before

/-- The comment behind is that of the last token passed, and that stands before the sequel. -/
theorem commentBehind {f g : Option CommentGroup → Parser β} (h : ∀ m, Kept n (f m) (g m)) :
    Kept n (Parser.commentBehind >>= f) (Parser.commentBehind >>= g) where
  forward {c c' x} run := (Cursor.Reaches.dropCommentBehind c).trans ((h c.commentBehind).forward run)
  keep {s c c' x} run plain before := by
    rw [commentBehind_bind] at run ⊢
    have gone : c.dropCommentBehind = c := by
      rw [Cursor.dropCommentBehind, plain.trailing, List.eraseP_nil, ← plain.trailing]
    have gone' : (c.followedBy s).dropCommentBehind = c.followedBy s := by
      have nothing : (c.followedBy s).trailing = [] := plain.trailing
      rw [Cursor.dropCommentBehind, nothing, List.eraseP_nil, ← nothing]
    have none : c.commentBehind = .none := by
      rw [Cursor.commentBehind, plain.trailing]
      rfl
    have none' : (c.followedBy s).commentBehind = .none := by
      rw [Cursor.commentBehind, show (c.followedBy s).trailing = [] from plain.trailing]
      rfl
    rw [none, gone] at run
    rw [none', gone']
    exact (h .none).keep run plain before

/-- What depends on the token at the cursor, or only on that a sequel may begin there. -/
theorem current {f g : Token → Parser β} (h : ∀ t, Kept n (f t) (g t))
    (edge : ∀ t u : Token, t.lexeme = .op .semicolon → u.lexeme.followsSignature = true →
      Kept n (f t) (g u)) :
    Kept n (Parser.current >>= f) (Parser.current >>= g) where
  forward {c c' x} run := (h c.current).forward run
  keep {s c c' x} run plain before := by
    rw [current_bind] at run ⊢
    have here := (before.back ((h c.current).forward run)).mono (Nat.zero_le n)
    rcases Cursor.current_followedBy (s := s) here with same | ⟨semi, next⟩
    · rw [same]
      exact (h c.current).keep run plain before
    · rw [next]
      exact (edge c.current s.next semi s.follows).keep run plain before

/-- Inside brackets the current token is never the one where the sequel begins. -/
theorem currentInside {f g : Token → Parser β} (h : ∀ t, Kept (n + 1) (f t) (g t)) :
    Kept (n + 1) (Parser.current >>= f) (Parser.current >>= g) :=
  ask (fun before => Cursor.current_followedBy_inside before) h

/-! ## Moving -/

/-- Where there is still a token before the sequel, the same one is passed. -/
theorem advance {f g : Token → Parser β} (h : ∀ t, Kept n (f t) (g t)) :
    Kept n (Parser.advance >>= f) (Parser.advance >>= g) where
  forward {c c' x} run := (Cursor.Reaches.pass c 1).trans ((h c.current).forward run)
  keep {s c c' x} run plain before := by
    rw [advance_bind] at run ⊢
    have further : c.advance.Before n := before.back ((h c.current).forward run)
    have moved : (c.followedBy s).advance = c.advance.followedBy s := Cursor.pass_followedBy further
    rw [Cursor.current_followedBy_inside further.of_advance, moved]
    exact (h c.current).keep run (plain.forward (.pass c 1)) before

/-- Passing a token after a look at it. -/
theorem advanceIf (look : Token → Bool) {cause : ParseCause} {f g : Token → Parser β}
    (h : ∀ t, Kept n (f t) (g t)) :
    Kept n ((do if ← Parser.ask fun c => look c.current then Parser.advance else Parser.fail cause) >>= f)
      ((do if ← Parser.ask fun c => look c.current then Parser.advance else Parser.fail cause) >>= g) := by
  have run_iff : ∀ {g : Token → Parser β} {c c' : Cursor} {x : β},
      ((do if ← Parser.ask fun c => look c.current then Parser.advance else Parser.fail cause) >>= g) c =
        .ok (x, c') ↔ look c.current = true ∧ (Parser.advance >>= g) c = .ok (x, c') := by
    intro g c c' x
    rw [bind_assoc, ask_bind]
    cases shows : look c.current with
    | true => exact (and_iff_right rfl).symm
    | false => exact ⟨fun run => absurd run fail_ne_ok, fun h => absurd h.1 Bool.false_ne_true⟩
  constructor
  · intro c c' x run
    exact (advance h).forward (run_iff.1 run).2
  · intro s c c' x run plain before
    obtain ⟨shows, rest⟩ := run_iff.1 run
    have further : c.advance.Before n := before.back ((h c.current).forward rest)
    refine run_iff.2 ⟨?_, (advance h).keep rest plain before⟩
    rw [Cursor.current_followedBy_inside further.of_advance, shows]

/-- A token that is expected is none of those that a sequel may begin with. -/
theorem expect (w : Lexeme) {f g : Token → Parser β} (h : ∀ t, Kept n (f t) (g t)) :
    Kept n (Parser.expect w >>= f) (Parser.expect w >>= g) :=
  advanceIf (fun t => t.lexeme = w) h

/-- A parser before a token that is passed: it ends one token earlier. -/
theorem beforeExpect {p q : Parser α} (w : Lexeme) {f g : α → Token → Parser β}
    (h : Kept (n + 1) p q) (k : ∀ x t, Kept n (f x t) (g x t)) :
    Kept n (do let x ← p; let t ← Parser.expect w; f x t)
      (do let x ← q; let t ← Parser.expect w; g x t) where
  forward run := by
    obtain ⟨x, c₁, first, rest⟩ := bind_eq_ok.1 run
    exact (h.forward first).trans ((expect w (k x)).forward rest)
  keep {s c c' y} run plain before := by
    obtain ⟨x, c₁, first, rest⟩ := bind_eq_ok.1 run
    obtain ⟨t, c₂, passed, last⟩ := bind_eq_ok.1 rest
    have moved : c₂ = c₁.advance := by
      rw [Parser.expect, isAt_bind] at passed
      split at passed
      · cases passed
        rfl
      · exact absurd passed fail_ne_ok
    have further : c₁.Before (n + 1) := by
      apply Cursor.Before.of_advance
      rw [← moved]
      exact before.back ((k x t).forward last)
    refine bind_eq_ok.2 ⟨x, _, h.keep first plain further, ?_⟩
    exact (expect w (k x)).keep rest (plain.forward (h.forward first)) before

/-- A name is no token that a sequel may begin with. -/
theorem ident {f g : String → Parser β} (h : ∀ name, Kept n (f name) (g name)) :
    Kept n (Parser.ident >>= f) (Parser.ident >>= g) := by
  simp only [Parser.ident, bind_assoc, pure_bind]
  exact advanceIf (fun t => t.lexeme.isIdent) fun t => h t.lexeme.text

/-- The semicolons ahead end before the last token, if that one is not among them. -/
theorem takeWhile_followedBy {c : Cursor} {s : Sequel} {isSemi : Token → Bool} {ts : List Token}
    {t : Token} (left : c.rest.dropWhile isSemi = ts ++ [t]) (semi : isSemi t = true) :
    (c.followedBy s).rest.takeWhile isSemi = c.rest.takeWhile isSemi := by
  have some : c.rest.dropWhile isSemi ≠ [] := by
    rw [left]
    exact List.append_ne_nil_of_right_ne_nil _ (List.cons_ne_nil _ _)
  have first := List.head_dropWhile_not isSemi some
  have whole := List.takeWhile_append_dropWhile (p := isSemi) (l := c.rest)
  cases ts with
  | nil => simp [left, semi] at first
  | cons u us =>
    have no : isSemi u = false := by simpa [left] using first
    have rest : (c.followedBy s).rest =
        c.rest.takeWhile isSemi ++ (u :: (us ++ s.next :: s.behind)) := by
      rw [Cursor.followedBy]
      conv => lhs; arg 1; rw [← whole, left, ← List.append_assoc, List.dropLast_concat]
      simp
    rw [rest, List.takeWhile_append_of_pos (List.all_eq_true.1 List.all_takeWhile),
      List.takeWhile_cons_of_neg (by simp [no]), List.append_nil]

theorem passSemis : Kept n Parser.passSemis Parser.passSemis where
  forward run := by
    cases run
    exact .pass _ _
  keep {s c c' x} run _ before := by
    cases run
    obtain ⟨ts, t, rest, semi, -⟩ := id before
    rw [Cursor.rest_passSemis] at rest
    have moved : (c.followedBy s).passSemis = c.passSemis.followedBy s := by
      rw [Cursor.passSemis, takeWhile_followedBy rest (decide_eq_true semi)]
      exact Cursor.pass_followedBy before
    exact congrArg (fun c => Except.ok ((), c)) moved

/-! ## Loops -/

/-- With a sequel the bound is not smaller. -/
theorem bounded {p q : Nat → Parser α} (h : ∀ i j, i ≤ j → Kept n (p i) (q j)) :
    Kept n (Parser.bounded p) (Parser.bounded q) where
  forward {c c' x} run := (h _ _ (Nat.le_refl (c.rest.length + 1))).forward run
  keep {s c c' x} run plain before := by
    refine (h _ _ (Nat.succ_le_succ ?_)).keep run plain before
    rw [Cursor.followedBy, List.length_append, List.length_dropLast, List.length_cons]
    omega

/-- The end of a statement that is not the last one. -/
theorem endStatement : Kept (n + 1) Parser.endStatement Parser.endStatement := by
  apply currentInside
  intro t
  split
  · exact advance fun _ => pure _
  · exact pure _
  · exact pure _
  · exact pure _
  · exact fail _ _

/-- A statement inside brackets ends before the sequel. -/
theorem statement {p q : Parser α} (h : Kept (n + 1) p q) :
    Kept (n + 1) (do let x ← p; Parser.endStatement; Pure.pure x)
      (do let x ← q; Parser.endStatement; Pure.pure x) :=
  bind h fun x => bind endStatement fun _ => pure x

/-- The members of a body end at its brace, and that stands before the sequel. By induction on the rounds,
of which the longer file has no fewer. -/
theorem itemsUntil {close : Lexeme} {item item' : Parser α} (h : Kept (n + 1) item item') {i j : Nat}
    (le : i ≤ j) : Kept (n + 1) (Parser.itemsUntil close item i) (Parser.itemsUntil close item' j) := by
  induction le using rounds_induction with
  | zero => exact fail _ _
  | succ i j _ ih =>
    apply isAtInside
    intro closed
    cases closed with
    | true => exact pure _
    | false =>
      apply isAtInside
      intro semi
      cases semi with
      | true => exact advance fun _ => ih
      | false => exact bind h fun x => bind ih fun xs => pure _

/-- A chain stops at the sequel, which begins with no operator. -/
theorem operandsAfter {isOperator : Lexeme → Bool}
    (others : ∀ w : Lexeme, w.followsSignature = true → isOperator w = false)
    {operand operand' : Parser α} (h : Kept n operand operand') {i j : Nat} (le : i ≤ j) :
    Kept n (Parser.operandsAfter isOperator operand i)
      (Parser.operandsAfter isOperator operand' j) := by
  induction le using rounds_induction with
  | zero => exact fail _ _
  | succ i j _ ih =>
    apply current
    · intro t
      split
      · exact advance fun _ => bind h fun x => bind ih fun xs => pure _
      · exact pure _
    · intro t u semi follows
      rw [others _ follows, others t.lexeme (by rw [semi]; rfl)]
      exact pure _

/-- A list ends at its bracket, which is nothing that a sequel begins with. -/
theorem commaItems {close : Lexeme} (other : close.followsSignature = false) {item item' : Parser α}
    (h : Kept n item item') {i j : Nat} (le : i ≤ j) :
    Kept n (Parser.commaItems close item i) (Parser.commaItems close item' j) := by
  induction le using rounds_induction with
  | zero => exact fail _ _
  | succ i j _ ih =>
    apply isAt other
    intro closed
    cases closed with
    | true => exact pure _
    | false =>
      apply bind h
      intro x
      apply isAt rfl
      intro comma
      cases comma with
      | true => exact advance fun _ => bind ih fun xs => pure _
      | false => exact pure _

/-- A list of names stops at the sequel, which begins with no comma. -/
theorem moreNames {i j : Nat} (le : i ≤ j) : Kept n (Parser.moreNames i) (Parser.moreNames j) := by
  induction le using rounds_induction with
  | zero => exact fail _ _
  | succ i j _ ih =>
    apply isAt rfl
    intro comma
    cases comma with
    | true => exact advance fun _ => ident fun name => bind ih fun names => pure _
    | false => exact pure _

end Kept

end Typings.Parser
