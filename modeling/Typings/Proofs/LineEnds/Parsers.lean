import Typings.Proofs.LineEnds.Cursors
import Typings.Proofs.Parser.Shown

/-!
# Parsers and carriage returns

Two parsers run alike (`Alike`) if from a pair of cursors both fail, or both succeed with values that show
the same and with a pair of cursors again. What shows of a value is told by a function `see`. Parsers that
are put together from parsers that run alike do so too.
-/

namespace Typings

variable {α β γ δ : Type}

/-- Two failures, or two values that show the same with a pair of cursors. -/
inductive RunsAlike (ms : List Comment) (see : α → γ) :
    Except ParseError (α × Cursor) → Except ParseError (α × Cursor) → Prop where
  | ok {x y : α} (d : CursorPair ms) (shows : see y = see x) :
    RunsAlike ms see (.ok (x, d.fst)) (.ok (y, d.snd))
  | error (e e' : ParseError) : RunsAlike ms see (.error e) (.error e')

/-- Runs that come to the same so far, and go on alike, come to the same. -/
theorem RunsAlike.bind {ms : List Comment} {see : α → γ} {see' : β → δ}
    {r r' : Except ParseError (α × Cursor)} {f g : α → Parser β} (h : RunsAlike ms see r r')
    (k : ∀ (d : CursorPair ms) (x y : α), see y = see x → RunsAlike ms see' (f x d.fst) (g y d.snd)) :
    RunsAlike ms see' (r >>= fun s => f s.1 s.2) (r' >>= fun s => g s.1 s.2) := by
  cases h with
  | ok d shows => exact k d _ _ shows
  | error e e' => exact .error e e'

namespace Parser

/-- From a pair of cursors, both parsers fail or both succeed, with the same to see. -/
def Alike (see : α → γ) (p q : Parser α) : Prop :=
  ∀ (ms : List Comment) (d : CursorPair ms), RunsAlike ms see (p d.fst) (q d.snd)

namespace Alike

variable {see : α → γ} {see' : β → δ} {p q : Parser α} {f g : α → Parser β}

theorem pure {x y : α} (shows : see y = see x) : Alike see (Pure.pure x) (Pure.pure y) :=
  fun _ d => .ok d shows

theorem fail (cause cause' : ParseCause) : Alike see (Parser.fail cause) (Parser.fail cause') :=
  fun _ _ => .error _ _

/-- The steps of two parsers are alike one by one. -/
theorem bind (h : Alike see p q) (k : ∀ x y, see y = see x → Alike see' (f x) (g y)) :
    Alike see' (p >>= f) (q >>= g) :=
  fun ms d => (h ms d).bind fun d' x y shows => k x y shows ms d'

/-- A value that is seen as it is. -/
theorem bind_id {p q : Parser α} (h : Alike id p q) (k : ∀ x, Alike see' (f x) (g x)) :
    Alike see' (p >>= f) (q >>= g) :=
  h.bind fun x y same => by
    rw [show y = x from same]
    exact k x

theorem ite {b : Bool} {p' q' : Parser α} (h : Alike see p q) (h' : Alike see p' q') :
    Alike see (if b then p else p') (if b then q else q') := by
  cases b with
  | true => exact h
  | false => exact h'

/-! ## Looking ahead -/

/-- What either cursor shows is the same. -/
theorem ask {look : Cursor → α}
    (shows : ∀ {ms : List Comment} (d : CursorPair ms), see (look d.snd) = see (look d.fst)) :
    Alike see (Parser.ask look) (Parser.ask look) := fun _ d => .ok d (shows d)

/-- A choice by a look ahead. -/
theorem askIf {look : Cursor → Bool} {p' q' : Parser α}
    (same : ∀ {ms : List Comment} (d : CursorPair ms), look d.snd = look d.fst) (h : Alike see p q)
    (h' : Alike see p' q') :
    Alike see (do if ← Parser.ask look then p else p') (do if ← Parser.ask look then q else q') :=
  bind_id (ask same) fun _ => ite h h'

theorem isAt_same {w : Lexeme} (plain : w.isLiteral = false) {ms : List Comment} (d : CursorPair ms) :
    decide (d.snd.current.lexeme = w) = decide (d.fst.current.lexeme = w) :=
  decide_eq_decide.2 (d.current_eq_iff plain)

theorem isAt {w : Lexeme} (plain : w.isLiteral = false) : Alike id (Parser.isAt w) (Parser.isAt w) :=
  ask (isAt_same plain)

/-- A choice by the lexeme at the cursor. -/
theorem isAtIf {w : Lexeme} {p' q' : Parser α} (plain : w.isLiteral = false) (h : Alike see p q)
    (h' : Alike see p' q') :
    Alike see (do if ← Parser.isAt w then p else p') (do if ← Parser.isAt w then q else q') :=
  askIf (isAt_same plain) h h'

/-- What depends on the token at the cursor. -/
theorem current {f g : Token → Parser β}
    (h : ∀ t u : Token, u.lexeme.seen = t.lexeme.seen → Alike see' (f t) (g u)) :
    Alike see' (Parser.current >>= f) (Parser.current >>= g) :=
  fun ms d => h _ _ d.seen ms d

theorem docHere : Alike (Option.map CommentGroup.plain) Parser.docHere Parser.docHere :=
  ask fun d => by
    rw [d.current_line]
    exact d.docAbove _

/-- The comment behind the last token is the same, but for the line ends in it. -/
theorem commentBehind :
    Alike (Option.map CommentGroup.plain) Parser.commentBehind Parser.commentBehind := fun ms d => by
  obtain ⟨d', first, second⟩ := d.exists_dropCommentBehind
  rw [Parser.commentBehind, Parser.commentBehind, ← first, ← second]
  exact .ok d' d.commentBehind

/-! ## Moving -/

/-- A token shows the same, but for the line ends in a literal. -/
theorem token : Alike (fun t => t.lexeme.seen) Parser.advance Parser.advance := fun ms d => by
  rw [Parser.advance, Parser.advance, Cursor.advance, Cursor.advance, ← d.fst_pass, ← d.snd_pass]
  exact .ok (d.pass 1) d.seen

theorem advance {f g : Token → Parser β} (h : ∀ t u : Token, Alike see' (f t) (g u)) :
    Alike see' (Parser.advance >>= f) (Parser.advance >>= g) := bind token fun t u _ => h t u

theorem passSemis : Alike id Parser.passSemis Parser.passSemis := fun ms d => by
  obtain ⟨d', first, second⟩ := d.exists_passSemis
  rw [Parser.passSemis, Parser.passSemis, ← first, ← second]
  exact .ok d' rfl

theorem discardAdvance : Alike id (discard Parser.advance) (discard Parser.advance) :=
  advance fun _ _ => pure rfl

theorem expect {w : Lexeme} {f g : Token → Parser β} (plain : w.isLiteral = false)
    (h : ∀ t u : Token, Alike see' (f t) (g u)) :
    Alike see' (Parser.expect w >>= f) (Parser.expect w >>= g) := by
  have expected : Alike (fun t => t.lexeme.seen) (Parser.expect w) (Parser.expect w) :=
    isAtIf plain token (fail _ _)
  exact bind expected fun t u _ => h t u

/-- A name is told by the lexeme alone. -/
theorem ident_eq : Parser.ident = (do
    let t ← Parser.current
    if t.lexeme.isIdent then
      let _ ← Parser.advance
      Pure.pure t.lexeme.text
    else Parser.fail (.expected .identifier)) := by
  funext c
  rw [Parser.ident, identToken, bind_assoc, isAtIdent, ask_bind, current_bind]
  cases c.current.lexeme.isIdent <;> rfl

theorem ident : Alike id Parser.ident Parser.ident := by
  rw [ident_eq]
  refine current fun t u seen => ?_
  rcases Lexeme.eq_or_literal seen with same | ⟨kind, text, text', first, second⟩
  · rw [same]
    exact ite (advance fun _ _ => pure rfl) (fail _ _)
  · rw [first, second]
    exact fail _ _

theorem endStatement : Alike id Parser.endStatement Parser.endStatement := by
  refine current fun t u seen => ?_
  rcases Lexeme.eq_or_literal seen with same | ⟨kind, text, text', first, second⟩
  · rw [same]
    split
    · exact discardAdvance
    · exact pure rfl
    · exact pure rfl
    · exact pure rfl
    · exact fail _ _
  · rw [first, second]
    exact fail _ _

/-- An item and the end of its statement. -/
theorem statement (h : Alike see p q) :
    Alike see (do let x ← p; Parser.endStatement; Pure.pure x)
      (do let x ← q; Parser.endStatement; Pure.pure x) :=
  bind h fun _ _ shows => bind endStatement fun _ _ _ => pure shows

/-! ## Loops -/

/-- There are as many levels, as there are as many tokens ahead. -/
theorem bounded {p q : Nat → Parser α} (h : ∀ n, Alike see (p n) (q n)) :
    Alike see (Parser.bounded p) (Parser.bounded q) := fun ms d => by
  rw [Parser.bounded, Parser.bounded, d.length_rest]
  exact h _ ms d

/-- Items are read alike one by one. -/
theorem itemsUntil {close : Lexeme} (plain : close.isLiteral = false) (h : Alike see p q) (n : Nat) :
    Alike (List.map see) (Parser.itemsUntil close p n) (Parser.itemsUntil close q n) := by
  induction n with
  | zero => exact fail _ _
  | succ n ih =>
    refine isAtIf plain (pure rfl) (isAtIf rfl (advance fun _ _ => ih) ?_)
    exact bind h fun _ _ here => bind ih fun _ _ behind => pure (map_cons_congr here behind)

theorem operandsAfter {isOperator : Lexeme → Bool}
    (plain : ∀ kind text, isOperator (.literal kind text) = false) (h : Alike see p q) (n : Nat) :
    Alike (List.map (Prod.map id see)) (Parser.operandsAfter isOperator p n)
      (Parser.operandsAfter isOperator q n) := by
  induction n with
  | zero => exact fail _ _
  | succ n ih =>
    refine current fun t u seen => ?_
    rcases Lexeme.eq_or_literal seen with same | ⟨kind, text, text', first, second⟩
    · rw [same]
      refine ite (advance fun _ _ => bind h fun x y here => bind ih fun _ _ behind => ?_) (pure rfl)
      have operand : Prod.map id see (t.lexeme.text, y) = Prod.map id see (t.lexeme.text, x) :=
        Prod.ext rfl here
      exact pure (map_cons_congr operand behind)
    · rw [first, second, plain, plain]
      exact pure rfl

theorem commaItems {close : Lexeme} (plain : close.isLiteral = false) (h : Alike see p q) (n : Nat) :
    Alike (List.map see) (Parser.commaItems close p n) (Parser.commaItems close q n) := by
  induction n with
  | zero => exact fail _ _
  | succ n ih =>
    refine isAtIf plain (pure rfl) (bind h fun _ _ here => isAtIf rfl ?_ (pure (map_cons_congr here rfl)))
    exact advance fun _ _ => bind ih fun _ _ behind => pure (map_cons_congr here behind)

theorem moreNames (n : Nat) : Alike id (Parser.moreNames n) (Parser.moreNames n) := by
  induction n with
  | zero => exact fail _ _
  | succ n ih =>
    refine isAtIf rfl (advance fun _ _ => ?_) (pure rfl)
    exact bind_id ident fun _ => bind_id ih fun _ => pure rfl

end Alike

end Parser

end Typings
