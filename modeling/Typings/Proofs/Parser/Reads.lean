import Typings.Proofs.Parser.Steps

/-!
# What a parser reads

`p.Reads us x vs` says that `p` reads its way through the lexemes `us` down to `vs` and gives `x`,
wherever these stand in a source without comments. There a parser sees nothing but the lexemes ahead
of it, so that its run is known from them alone.
-/

namespace Typings

namespace Cursor

/-- The text has an end and no comments are left in it. -/
structure IsClear (c : Cursor) : Prop where
  ended : c.IsEnded
  own : c.own = []
  trailing : c.trailing = []

theorem IsClear.pass {c : Cursor} (h : c.IsClear) (n : Nat) : (c.pass n).IsClear :=
  ⟨h.ended, h.own, h.trailing⟩

/-- Where there are no comments, there is no documentation. -/
theorem IsClear.docAbove {c : Cursor} (h : c.IsClear) (line : Nat) : c.docAbove line = none := by
  rw [Cursor.docAbove, h.own, docRun]

/-- Where there are no comments, none is behind the last token. -/
theorem IsClear.commentBehind {c : Cursor} (h : c.IsClear) : c.commentBehind = none := by
  rw [Cursor.commentBehind, h.trailing]
  rfl

theorem IsClear.dropCommentBehind {c : Cursor} (h : c.IsClear) : c.dropCommentBehind.IsClear := by
  refine ⟨h.ended, h.own, ?_⟩
  rw [Cursor.dropCommentBehind, h.trailing]
  rfl

/-- The next lexeme is the first of those ahead, or the mark of the end. -/
theorem IsClear.current_lexeme {c : Cursor} (h : c.IsClear) :
    c.current.lexeme = c.ahead.headD .eof := by
  rw [Cursor.current_lexeme, show c.stop.lexeme = .eof from h.ended]

theorem IsClear.peek_lexeme {c : Cursor} (h : c.IsClear) :
    (c.peek 1).lexeme = c.ahead.tail.headD .eof := by
  rw [← current_advance, advance, (h.pass 1).current_lexeme, ahead_pass, List.drop_one]

end Cursor

/-- The bracket that brings the depth down to zero is directly followed by a type. -/
def closesAheadOfType (depth : Int) : List Lexeme → Bool
  | [] => false
  | .op .leftBracket :: us => closesAheadOfType (depth + 1) us
  | .op .rightBracket :: us =>
    if depth = 1 then (us.headD .eof).startsType else closesAheadOfType (depth - 1) us
  | _ :: us => closesAheadOfType depth us

/-- The search for a closing bracket goes by the lexemes ahead. -/
theorem Cursor.closesBeforeType_eq {stop : Token} (ended : stop.lexeme = .eof) (depth : Int)
    (ts : List Token) :
    Cursor.closesBeforeType stop depth ts = closesAheadOfType depth (ts.map Token.lexeme) := by
  induction ts generalizing depth with
  | nil => rfl
  | cons t ts ih =>
    have next : (ts.headD stop).lexeme = (ts.map Token.lexeme).headD .eof := by
      cases ts with
      | nil => exact ended
      | cons => rfl
    rw [Cursor.closesBeforeType, List.map_cons, closesAheadOfType.eq_def]
    generalize t.lexeme = w
    split <;> simp_all

/-! ## What lexemes show of what they begin -/

/-- A name and the array type after it. -/
def showsNamedArray (us : List Lexeme) : Bool :=
  (us.headD .eof).isIdent && us.tail.headD .eof = .op .leftBracket && closesAheadOfType 0 us.tail

/-- An identifier that is the name of a field, and not a type that is embedded. -/
def showsFieldName (us : List Lexeme) : Bool :=
  (us.headD .eof).isIdent &&
    match us.tail.headD .eof with
    | .op .dot | .op .semicolon | .op .rightBrace => false
    | .literal .string _ => false
    | .op .leftBracket => closesAheadOfType 0 us.tail
    | _ => true

/-- Type arguments, and not an array of no stated length. -/
def showsTypeArgs (us : List Lexeme) : Bool :=
  us.headD .eof = .op .leftBracket && us.tail.headD .eof ≠ .op .rightBracket

/-- A method's name. -/
def showsMethod (us : List Lexeme) : Bool :=
  (us.headD .eof).isIdent && us.tail.headD .eof = .op .leftParen

namespace Cursor.IsClear

variable {c : Cursor}

theorem closesAtType (h : c.IsClear) : c.closesAtType 1 = closesAheadOfType 0 c.ahead.tail := by
  rw [Cursor.closesAtType, Cursor.closesBeforeType_eq h.ended, List.map_drop, List.drop_one]
  rfl

theorem showsNamedArray (h : c.IsClear) : c.showsNamedArray = Typings.showsNamedArray c.ahead := by
  rw [Cursor.showsNamedArray, h.current_lexeme, h.peek_lexeme, h.closesAtType]
  rfl

theorem showsFieldName (h : c.IsClear) : c.showsFieldName = Typings.showsFieldName c.ahead := by
  rw [Cursor.showsFieldName, h.current_lexeme, h.peek_lexeme, h.closesAtType]
  rfl

theorem showsTypeArgs (h : c.IsClear) : c.showsTypeArgs = Typings.showsTypeArgs c.ahead := by
  rw [Cursor.showsTypeArgs, h.current_lexeme, h.peek_lexeme]
  rfl

theorem showsMethod (h : c.IsClear) : c.showsMethod = Typings.showsMethod c.ahead := by
  rw [Cursor.showsMethod, h.current_lexeme, h.peek_lexeme]
  rfl

end Cursor.IsClear

namespace Parser

variable {α β γ : Type} {us vs ws : List Lexeme}

/-- From one list of lexemes ahead to another, the parser succeeds with a value, in any source
without comments. -/
def Reads (p : Parser α) (us : List Lexeme) (x : α) (vs : List Lexeme) : Prop :=
  ∀ c : Cursor, c.IsClear → c.ahead = us → ∃ c', p c = .ok (x, c') ∧ c'.IsClear ∧ c'.ahead = vs

/-- The lexeme that is expected stands ahead. -/
theorem expect_of_ahead {c : Cursor} {w : Lexeme} (ahead : c.ahead = w :: us) :
    expect w c = .ok (c.current, c.advance) := by
  rw [expect, isAt_bind, Cursor.current_lexeme_of_ahead ahead, decide_eq_true rfl]
  rfl

namespace Reads

theorem pure (x : α) (us : List Lexeme) : Reads (Pure.pure x) us x us :=
  fun c clear ahead => ⟨c, rfl, clear, ahead⟩

/-- What the first step leaves unread is read by the next. -/
theorem bind {p : Parser α} {f : α → Parser β} {x : α} {y : β} (h : p.Reads us x vs)
    (k : (f x).Reads vs y ws) : (p >>= f).Reads us y ws := by
  intro c clear ahead
  obtain ⟨c₁, run, clear₁, ahead₁⟩ := h c clear ahead
  obtain ⟨c₂, run₂, clear₂, ahead₂⟩ := k c₁ clear₁ ahead₁
  exact ⟨c₂, (bind_of_ok run).trans run₂, clear₂, ahead₂⟩

/-! ## Looking ahead -/

/-- A look at the lexemes ahead decides how reading goes on. -/
theorem ask {g : Cursor → γ} {f : γ → Parser β} {y : β} {z : γ}
    (shows : ∀ c : Cursor, c.IsClear → c.ahead = us → g c = z) (k : (f z).Reads us y vs) :
    (Parser.ask g >>= f).Reads us y vs := by
  intro c clear ahead
  rw [ask_bind, shows c clear ahead]
  exact k c clear ahead

theorem current {f : Token → Parser β} {y : β}
    (k : ∀ t : Token, t.lexeme = us.headD .eof → (f t).Reads us y vs) :
    (Parser.current >>= f).Reads us y vs := by
  intro c clear ahead
  exact k c.current (clear.current_lexeme.trans (by rw [ahead])) c clear ahead

theorem isAt {w : Lexeme} {f : Bool → Parser β} {y : β} {b : Bool}
    (shows : decide (us.headD .eof = w) = b) (k : (f b).Reads us y vs) :
    (Parser.isAt w >>= f).Reads us y vs :=
  ask (fun c clear ahead => by rw [clear.current_lexeme, ahead, shows]) k

/-- There are as many levels as there are lexemes ahead, and one more. -/
theorem bounded {p : Nat → Parser α} {x : α} (k : (p (us.length + 1)).Reads us x vs) :
    (Parser.bounded p).Reads us x vs := by
  intro c clear ahead
  have count : c.rest.length = us.length := by rw [← ahead, Cursor.ahead, List.length_map]
  show ∃ c', p (c.rest.length + 1) c = _ ∧ _
  rw [count]
  exact k c clear ahead

/-! ## Moving -/

/-- Reading goes on behind the next lexeme, whatever its token. -/
theorem advance {w : Lexeme} {f : Token → Parser β} {y : β}
    (k : ∀ t : Token, t.lexeme = w → (f t).Reads us y vs) :
    (Parser.advance >>= f).Reads (w :: us) y vs := by
  intro c clear ahead
  exact k c.current (Cursor.current_lexeme_of_ahead ahead) c.advance (clear.pass 1)
    (Cursor.ahead_advance ahead)

theorem expect {w : Lexeme} {f : Token → Parser β} {y : β}
    (k : ∀ t : Token, (f t).Reads us y vs) : (Parser.expect w >>= f).Reads (w :: us) y vs := by
  intro c clear ahead
  have moves : (Parser.advance >>= f).Reads (w :: us) y vs := advance fun t _ => k t
  obtain ⟨c', run, rest⟩ := moves c clear ahead
  exact ⟨c', (bind_of_ok (expect_of_ahead ahead)).trans run, rest⟩

theorem ident {name : String} : Parser.ident.Reads (.ident name :: us) name us := by
  intro c clear ahead
  have here : c.current.lexeme = .ident name := Cursor.current_lexeme_of_ahead ahead
  have passes : identToken c = .ok (c.current, c.advance) := by
    show (Parser.ask (fun c => c.current.lexeme.isIdent) >>= _) c = _
    rw [ask_bind, here]
    rfl
  refine ⟨c.advance, ?_, clear.pass 1, Cursor.ahead_advance ahead⟩
  rw [Parser.ident, bind_of_ok passes, here]
  rfl

theorem passSemis (h : us.headD .eof ≠ .op .semicolon) : Parser.passSemis.Reads us () us := by
  intro c clear ahead
  refine ⟨c.passSemis, rfl, clear.pass _, ?_⟩
  rw [Cursor.passSemis, Cursor.ahead_pass, ahead]
  suffices none : (c.rest.takeWhile fun t => t.lexeme = .op .semicolon) = [] by
    rw [none]
    rfl
  rw [← ahead, Cursor.ahead] at h
  cases hr : c.rest with
  | nil => rfl
  | cons t ts =>
    rw [hr] at h
    rw [List.takeWhile_cons_of_neg]
    exact fun same => h (of_decide_eq_true same)

/-- No documentation is found, as there are no comments. -/
theorem docHere : Parser.docHere.Reads us none us := by
  intro c clear ahead
  refine ⟨c, ?_, clear, ahead⟩
  show Except.ok (c.docAbove c.current.pos.line, c) = _
  rw [clear.docAbove]

/-- No comment is found. -/
theorem commentBehind : Parser.commentBehind.Reads us none us := by
  intro c clear ahead
  refine ⟨c.dropCommentBehind, ?_, clear.dropCommentBehind, ahead⟩
  show Except.ok (c.commentBehind, c.dropCommentBehind) = _
  rw [clear.commentBehind]

end Reads

end Parser

end Typings
