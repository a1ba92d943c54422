import Typings.Proofs.Grouped.Comments
import Typings.Proofs.Parser.Reads
import Typings.Proofs.Parser.Shown

/-!
# Parsers at cursors that agree

Cursors agree (`Cursor.Agree`) in a relation that is kept on every way a parser can move them, and where
the same lexemes are ahead of both and comments are the same up to a function. At such cursors a parser
that succeeds at the first succeeds at the second, with the same value up to that function
(`Parser.Tracks`), since it sees nothing else. Parsers put together from such parsers are such parsers.
-/

namespace Typings

namespace Cursor

/-- Related cursors show the same lexemes and comments that `f` does not tell apart, and stay related. -/
structure Agree (f : CommentGroup → Option CommentGroup) (R : Cursor → Cursor → Prop) : Prop where
  ended : ∀ {c d}, R c d → c.IsEnded ∧ d.IsEnded
  ahead : ∀ {c d}, R c d → d.ahead = c.ahead
  pass : ∀ {c d}, R c d → ∀ n, R (c.pass n) (d.pass n)
  docHere : ∀ {c d}, R c d →
    (d.docAbove d.current.pos.line).bind f = (c.docAbove c.current.pos.line).bind f
  commentBehind : ∀ {c d}, R c d → d.commentBehind.bind f = c.commentBehind.bind f
  claim : ∀ {c d}, R c d → R c.dropCommentBehind d.dropCommentBehind

/-- The cursor with all comments gone. -/
def cleared (c : Cursor) : Cursor := { c with own := [], trailing := [] }

theorem IsEnded.isClear {c : Cursor} (ended : c.IsEnded) : c.cleared.IsClear := ⟨ended, rfl, rfl⟩

/-- A look ahead that no comments show in, as a function of the lexemes ahead. -/
theorem look_congr {α : Type} (look : Cursor → α) (shows : List Lexeme → α)
    (clear : ∀ {c : Cursor}, c.IsClear → look c = shows c.ahead)
    (blind : ∀ c : Cursor, look c.cleared = look c) {c d : Cursor} (ended : c.IsEnded ∧ d.IsEnded)
    (ahead : d.ahead = c.ahead) : look d = look c := by
  rw [← blind c, ← blind d, clear ended.1.isClear, clear ended.2.isClear]
  exact congrArg shows ahead

theorem IsClear.peek_two_lexeme {c : Cursor} (h : c.IsClear) :
    (c.peek 2).lexeme = (c.ahead.drop 2).headD .eof := by
  have next : c.peek 2 = (c.pass 1).peek 1 := by
    rw [peek, peek, Cursor.pass, List.getD_eq_getElem?_getD, List.getD_eq_getElem?_getD,
      List.getElem?_drop]
  rw [next, (h.pass 1).peek_lexeme, ahead_pass, List.tail_drop]

namespace Agree

variable {f : CommentGroup → Option CommentGroup} {R : Cursor → Cursor → Prop} {c d : Cursor}

/-- Cursors that agree are at the same lexeme. -/
theorem current_lexeme (agree : Agree f R) (h : R c d) : d.current.lexeme = c.current.lexeme :=
  look_congr (fun c => c.current.lexeme) (fun us => us.headD .eof) IsClear.current_lexeme (fun _ => rfl)
    (agree.ended h) (agree.ahead h)

/-- Cursors that agree have as many tokens ahead. -/
theorem length_rest (agree : Agree f R) (h : R c d) : d.rest.length = c.rest.length := by
  have same := congrArg List.length (agree.ahead h)
  rwa [Cursor.ahead, Cursor.ahead, List.length_map, List.length_map] at same

/-- The looks ahead find the same at cursors that agree: they look at lexemes only. -/
theorem showsNamedArray (agree : Agree f R) (h : R c d) : d.showsNamedArray = c.showsNamedArray :=
  look_congr _ _ IsClear.showsNamedArray (fun _ => rfl) (agree.ended h) (agree.ahead h)

theorem showsFieldName (agree : Agree f R) (h : R c d) : d.showsFieldName = c.showsFieldName :=
  look_congr _ _ IsClear.showsFieldName (fun _ => rfl) (agree.ended h) (agree.ahead h)

theorem showsTypeArgs (agree : Agree f R) (h : R c d) : d.showsTypeArgs = c.showsTypeArgs :=
  look_congr _ _ IsClear.showsTypeArgs (fun _ => rfl) (agree.ended h) (agree.ahead h)

theorem showsMethod (agree : Agree f R) (h : R c d) : d.showsMethod = c.showsMethod :=
  look_congr _ _ IsClear.showsMethod (fun _ => rfl) (agree.ended h) (agree.ahead h)

theorem showsTypeParams (agree : Agree f R) (h : R c d) :
    Parser.showsTypeParams d = Parser.showsTypeParams c := by
  let shows (us : List Lexeme) : Bool := us.headD .eof = .op .leftBracket
    && (us.tail.headD .eof).isIdent && !Parser.continuesLength ((us.drop 2).headD .eof)
  have clear : ∀ {c : Cursor}, c.IsClear → Parser.showsTypeParams c = shows c.ahead := by
    intro c clear
    rw [Parser.showsTypeParams, clear.current_lexeme, clear.peek_lexeme, clear.peek_two_lexeme]
  exact look_congr _ shows clear (fun _ => rfl) (agree.ended h) (agree.ahead h)

/-- Cursors that agree do so behind the semicolons ahead. -/
theorem passSemis (agree : Agree f R) (h : R c d) : R c.passSemis d.passSemis := by
  have counted : ∀ c : Cursor, (c.rest.takeWhile fun t => t.lexeme = .op .semicolon).length =
      (c.ahead.takeWhile fun w => w = .op .semicolon).length := by
    intro c
    rw [Cursor.ahead, List.takeWhile_map, List.length_map]
    rfl
  rw [Cursor.passSemis, Cursor.passSemis, counted, counted, agree.ahead h]
  exact agree.pass h _

end Agree

end Cursor

variable {α β γ δ : Type}

namespace Parser

/-- From related cursors, the second parser succeeds where the first does, with the same to see, and the
cursors stay related. -/
def Tracks (R : Cursor → Cursor → Prop) (see : α → γ) (p q : Parser α) : Prop :=
  ∀ (c d c' : Cursor) (x : α), R c d → p c = .ok (x, c') →
    ∃ y d', q d = .ok (y, d') ∧ R c' d' ∧ see y = see x

namespace Tracks

variable {f : CommentGroup → Option CommentGroup} {R : Cursor → Cursor → Prop} {see : α → γ}
  {see' : β → δ} {p q : Parser α} {g k : α → Parser β}

theorem pure {x y : α} (shows : see y = see x) : Tracks R see (Pure.pure x) (Pure.pure y) := by
  intro c d c' z h run
  obtain ⟨rfl, rfl⟩ := pure_eq_ok.1 run
  exact ⟨y, d, rfl, h, shows⟩

theorem fail (cause : ParseCause) (q : Parser α) : Tracks R see (Parser.fail cause) q :=
  fun _ _ _ _ _ run => absurd run fail_ne_ok

/-- What is parsed alike first is gone on with alike. -/
theorem bind (first : Tracks R see p q) (next : ∀ x y, see y = see x → Tracks R see' (g x) (k y)) :
    Tracks R see' (p >>= g) (q >>= k) := by
  intro c d c'' z h run
  obtain ⟨x, c', run, run'⟩ := bind_eq_ok.1 run
  obtain ⟨y, d', runs, h', shows⟩ := first c d c' x h run
  obtain ⟨z', d'', runs', h'', shows'⟩ := next x y shows c' d' c'' z h' run'
  exact ⟨z', d'', bind_eq_ok.2 ⟨y, d', runs, runs'⟩, h'', shows'⟩

/-- A value that is seen as it is. -/
theorem bind_id {p q : Parser α} (first : Tracks R id p q) (next : ∀ x, Tracks R see' (g x) (k x)) :
    Tracks R see' (p >>= g) (q >>= k) :=
  first.bind fun x y same => by
    rw [show y = x from same]
    exact next x

theorem ite {b : Bool} {p' q' : Parser α} (h : Tracks R see p q) (h' : Tracks R see p' q') :
    Tracks R see (if b then p else p') (if b then q else q') := by
  cases b with
  | true => exact h
  | false => exact h'

/-! ## Looking ahead -/

/-- What cursors that agree show alike is parsed alike. -/
theorem ask {look : Cursor → α} (shows : ∀ {c d : Cursor}, R c d → see (look d) = see (look c)) :
    Tracks R see (Parser.ask look) (Parser.ask look) := by
  intro c d c' x h run
  cases run
  exact ⟨look d, d, rfl, h, shows h⟩

/-- A choice by a look ahead. -/
theorem askIf {look : Cursor → Bool} {p' q' : Parser α}
    (same : ∀ {c d : Cursor}, R c d → look d = look c) (h : Tracks R see p q)
    (h' : Tracks R see p' q') :
    Tracks R see (do if ← Parser.ask look then p else p') (do if ← Parser.ask look then q else q') :=
  bind_id (ask fun related => same related) fun _ => ite h h'

/-- Documentation above the token is found with its comments changed. -/
theorem docHere (agree : Cursor.Agree f R) :
    Tracks R (Option.bind · f) Parser.docHere Parser.docHere :=
  ask agree.docHere

/-- The comment behind the last token is found with its comments changed. -/
theorem commentBehind (agree : Cursor.Agree f R) :
    Tracks R (Option.bind · f) Parser.commentBehind Parser.commentBehind := by
  intro c d c' x h run
  cases run
  exact ⟨_, _, rfl, agree.claim h, agree.commentBehind h⟩

section moves

variable (agree : Cursor.Agree f R)
include agree

theorem isAt_same (w : Lexeme) {c d : Cursor} (h : R c d) :
    decide (d.current.lexeme = w) = decide (c.current.lexeme = w) := by
  rw [agree.current_lexeme h]

theorem isAt (w : Lexeme) : Tracks R id (Parser.isAt w) (Parser.isAt w) := ask (isAt_same agree w)

/-- A choice by the lexeme at the cursor. -/
theorem isAtIf {w : Lexeme} {p' q' : Parser α} (h : Tracks R see p q) (h' : Tracks R see p' q') :
    Tracks R see (do if ← Parser.isAt w then p else p') (do if ← Parser.isAt w then q else q') :=
  askIf (isAt_same agree w) h h'

/-- What depends on the lexeme at the cursor. -/
theorem current {g k : Token → Parser β}
    (next : ∀ t u : Token, u.lexeme = t.lexeme → Tracks R see' (g t) (k u)) :
    Tracks R see' (Parser.current >>= g) (Parser.current >>= k) :=
  fun c d c' x h run => next _ _ (agree.current_lexeme h) c d c' x h run

/-! ## Moving -/

theorem token : Tracks R Token.lexeme Parser.advance Parser.advance := by
  intro c d c' x h run
  cases run
  exact ⟨_, _, rfl, agree.pass h 1, agree.current_lexeme h⟩

theorem advance {g k : Token → Parser β} (next : ∀ t u : Token, Tracks R see' (g t) (k u)) :
    Tracks R see' (Parser.advance >>= g) (Parser.advance >>= k) :=
  bind (token agree) fun t u _ => next t u

theorem passSemis : Tracks R id Parser.passSemis Parser.passSemis := by
  intro c d c' x h run
  cases run
  exact ⟨(), _, rfl, agree.passSemis h, rfl⟩

theorem expect {w : Lexeme} {g k : Token → Parser β}
    (next : ∀ t u : Token, Tracks R see' (g t) (k u)) :
    Tracks R see' (Parser.expect w >>= g) (Parser.expect w >>= k) := by
  have expected : Tracks R Token.lexeme (Parser.expect w) (Parser.expect w) :=
    isAtIf agree (token agree) (fail _ _)
  exact bind expected fun t u _ => next t u

/-- A name is the same at cursors that agree. -/
theorem ident : Tracks R id Parser.ident Parser.ident := by
  have passed : Tracks R Token.lexeme Parser.identToken Parser.identToken :=
    askIf (fun h => by rw [agree.current_lexeme h]) (token agree) (fail _ _)
  exact bind passed fun t u same => by
    rw [same]
    exact pure rfl

theorem endStatement : Tracks R id Parser.endStatement Parser.endStatement := by
  refine current agree fun t u same => ?_
  rw [same]
  split
  · exact advance agree fun _ _ => pure rfl
  · exact pure rfl
  · exact pure rfl
  · exact pure rfl
  · exact fail _ _

/-- An item and the end of its statement. -/
theorem statement (h : Tracks R see p q) :
    Tracks R see (do let x ← p; Parser.endStatement; Pure.pure x)
      (do let x ← q; Parser.endStatement; Pure.pure x) :=
  bind h fun _ _ shows => bind (endStatement agree) fun _ _ _ => pure shows

/-! ## Loops -/

/-- There are as many levels, as there are as many tokens ahead. -/
theorem bounded {p q : Nat → Parser α} (h : ∀ n, Tracks R see (p n) (q n)) :
    Tracks R see (Parser.bounded p) (Parser.bounded q) := by
  intro c d c' x related run
  rw [Parser.bounded, agree.length_rest related]
  exact h _ c d c' x related run

/-- Items are followed one by one. -/
theorem itemsUntil {close : Lexeme} (h : Tracks R see p q) (n : Nat) :
    Tracks R (List.map see) (Parser.itemsUntil close p n) (Parser.itemsUntil close q n) := by
  induction n with
  | zero => exact fail _ _
  | succ n ih =>
    refine isAtIf agree (pure rfl) (isAtIf agree (advance agree fun _ _ => ih) ?_)
    exact bind h fun _ _ here => bind ih fun _ _ behind => pure (map_cons_congr here behind)

theorem operandsAfter {isOperator : Lexeme → Bool} (h : Tracks R see p q) (n : Nat) :
    Tracks R (List.map (Prod.map id see)) (Parser.operandsAfter isOperator p n)
      (Parser.operandsAfter isOperator q n) := by
  induction n with
  | zero => exact fail _ _
  | succ n ih =>
    refine current agree fun t u same => ?_
    rw [same]
    refine ite (advance agree fun _ _ => bind h fun x y here => bind ih fun _ _ behind => ?_) (pure rfl)
    have operand : Prod.map id see (t.lexeme.text, y) = Prod.map id see (t.lexeme.text, x) :=
      Prod.ext rfl here
    exact pure (map_cons_congr operand behind)

theorem commaItems {close : Lexeme} (h : Tracks R see p q) (n : Nat) :
    Tracks R (List.map see) (Parser.commaItems close p n) (Parser.commaItems close q n) := by
  induction n with
  | zero => exact fail _ _
  | succ n ih =>
    refine isAtIf agree (pure rfl) (bind h fun _ _ here => ?_)
    refine isAtIf agree ?_ (pure (map_cons_congr here rfl))
    exact advance agree fun _ _ => bind ih fun _ _ behind => pure (map_cons_congr here behind)

theorem moreNames (n : Nat) : Tracks R id (Parser.moreNames n) (Parser.moreNames n) := by
  induction n with
  | zero => exact fail _ _
  | succ n ih =>
    refine isAtIf agree (advance agree fun _ _ => ?_) (pure rfl)
    exact bind_id (ident agree) fun _ => bind_id ih fun _ => pure rfl

end moves

end Tracks

end Parser

end Typings
