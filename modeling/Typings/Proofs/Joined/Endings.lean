import Typings.Proofs.Joined.Types

/-!
# How a type ends

The last token of a type ends a statement at a line end: it is a name, a literal or a closing bracket
(`Parser.type_ends`). So a source that ends behind a type has a semicolon there.
-/

namespace Typings.Parser

variable {α β : Type}

/-- The parser only moves on. -/
def Forward (p : Parser α) : Prop := ∀ {c c' : Cursor} {x : α}, p c = .ok (x, c') → c.Reaches c'

/-- The last token that the parser passes is one that ends a statement. -/
def Ends (p : Parser α) : Prop :=
  ∀ (c c' : Cursor) (x : α), c.IsEnded → p c = .ok (x, c') →
    c'.IsEnded ∧ ∃ us t, c.rest = us ++ t :: c'.rest ∧ t.lexeme.endsStatement = true

/-- The parser passes nothing, or the last token that it passes is one that ends a statement. -/
def MayEnd (p : Parser α) : Prop :=
  ∀ (c c' : Cursor) (x : α), c.IsEnded → p c = .ok (x, c') →
    c'.IsEnded ∧ (c'.rest = c.rest ∨
      ∃ us t, c.rest = us ++ t :: c'.rest ∧ t.lexeme.endsStatement = true)

theorem Framed.moves {p q : Parser α} (h : Framed true p q) : p.Forward := h.forward

theorem forward_advance : Forward advance := by
  intro c c' x run
  cases run
  exact .pass c 1

theorem forward_ask {γ : Type} (look : Cursor → γ) : Forward (ask look) := by
  intro c c' x run
  cases run
  exact .refl c

theorem forward_expect (w : Lexeme) : Forward (expect w) := by
  intro c c' x run
  rw [expect, isAt_bind] at run
  split at run
  · exact forward_advance run
  · exact absurd run fail_ne_ok

namespace MayEnd

variable {p : Parser α} {f : α → Parser β}

theorem pure (x : α) : MayEnd (Pure.pure x) := by
  intro c c' y ended run
  obtain ⟨-, rfl⟩ := pure_eq_ok.1 run
  exact ⟨ended, .inl rfl⟩

theorem ask {γ : Type} (look : Cursor → γ) : MayEnd (Parser.ask look) := by
  intro c c' x ended run
  cases run
  exact ⟨ended, .inl rfl⟩

theorem commentBehind : MayEnd Parser.commentBehind := by
  intro c c' x ended run
  cases run
  exact ⟨ended, .inl rfl⟩

/-- The last step decides where a parser may end. -/
theorem bind (h : MayEnd p) (k : ∀ x, MayEnd (f x)) : MayEnd (p >>= f) := by
  intro c c' y ended run
  obtain ⟨x, c₁, first, rest⟩ := bind_eq_ok.1 run
  obtain ⟨ended₁, before⟩ := h c c₁ x ended first
  obtain ⟨ended', behind⟩ := k x c₁ c' y ended₁ rest
  refine ⟨ended', ?_⟩
  rcases behind with same | ⟨us, t, tokens, ends⟩
  · rw [same]
    exact before
  · rcases before with same' | ⟨us', t', tokens', -⟩
    · exact .inr ⟨us, t, by rw [← same', tokens], ends⟩
    · refine .inr ⟨us' ++ t' :: us, t, ?_, ends⟩
      rw [tokens', tokens, List.append_assoc, List.cons_append]

end MayEnd

namespace Ends

variable {p : Parser α} {f : α → Parser β}

theorem mayEnd (h : Ends p) : MayEnd p := by
  intro c c' x ended run
  obtain ⟨ended', tokens⟩ := h c c' x ended run
  exact ⟨ended', .inr tokens⟩

theorem fail (cause : ParseCause) : Ends (Parser.fail cause : Parser α) :=
  fun _ _ _ _ run => absurd run fail_ne_ok

/-- What comes last decides. -/
theorem after (forward : Forward p) (k : ∀ x, Ends (f x)) : Ends (p >>= f) := by
  intro c c' y ended run
  obtain ⟨x, c₁, first, rest⟩ := bind_eq_ok.1 run
  have reaches := forward first
  obtain ⟨us, tokens, -⟩ := reaches.tokens
  obtain ⟨ended', vs, t, tokens', ends⟩ := k x c₁ c' y (reaches.isEnded ended) rest
  exact ⟨ended', us ++ vs, t, by rw [tokens, tokens', List.append_assoc], ends⟩

/-- The first step ends where statements end, and the others go no further or end so as well. -/
theorem andThen (h : Ends p) (k : ∀ x, MayEnd (f x)) : Ends (p >>= f) := by
  intro c c' y ended run
  obtain ⟨x, c₁, first, rest⟩ := bind_eq_ok.1 run
  obtain ⟨ended₁, us, t, tokens, ends⟩ := h c c₁ x ended first
  obtain ⟨ended', behind⟩ := k x c₁ c' y ended₁ rest
  refine ⟨ended', ?_⟩
  rcases behind with same | ⟨vs, t', tokens', ends'⟩
  · exact ⟨us, t, by rw [same, tokens], ends⟩
  · refine ⟨us ++ t :: vs, t', ?_, ends'⟩
    rw [tokens, tokens', List.append_assoc, List.cons_append]

theorem ask {γ : Type} {look : Cursor → γ} {f : γ → Parser β} (k : ∀ z, Ends (f z)) :
    Ends (Parser.ask look >>= f) := after (forward_ask look) k

theorem advance {f : Token → Parser β} (k : ∀ t, Ends (f t)) : Ends (Parser.advance >>= f) :=
  after forward_advance k

theorem expect {w : Lexeme} {f : Token → Parser β} (k : ∀ t, Ends (f t)) :
    Ends (Parser.expect w >>= f) := after (forward_expect w) k

/-- Passing a token that ends a statement. -/
theorem of_current {c : Cursor} (ended : c.IsEnded) (h : c.current.lexeme.endsStatement = true) :
    c.advance.IsEnded ∧ ∃ us t, c.rest = us ++ t :: c.advance.rest ∧ t.lexeme.endsStatement = true := by
  cases rest : c.rest with
  | nil =>
    rw [Cursor.current, rest, List.headD_nil, show c.stop.lexeme = .eof from ended] at h
    cases h
  | cons t ts =>
    rw [Cursor.current, rest] at h
    refine ⟨ended, [], t, ?_, h⟩
    rw [Cursor.advance, Cursor.pass, rest]
    rfl

/-- Passing a closing bracket. -/
theorem close {w : Lexeme} (ends : w.endsStatement = true) : Ends (Parser.expect w) := by
  intro c c' x ended run
  rw [Parser.expect, isAt_bind] at run
  split at run
  · next here =>
    cases run
    exact of_current ended (by rw [of_decide_eq_true here, ends])
  · exact absurd run fail_ne_ok

theorem ident : Ends Parser.ident := by
  intro c c' x ended run
  obtain ⟨t, c₁, first, last⟩ := bind_eq_ok.1 run
  obtain ⟨-, rfl⟩ := pure_eq_ok.1 last
  change (Parser.ask (fun c => c.current.lexeme.isIdent) >>= _) c = _ at first
  rw [ask_bind] at first
  split at first
  · next here =>
    cases first
    refine of_current ended ?_
    cases named : c.current.lexeme with
    | ident name => rfl
    | _ =>
      rw [named] at here
      cases here
  · exact absurd first fail_ne_ok

end Ends

/-! ## Types -/

variable {ty : Parser TypeExpr} {st : Bool}

/-- A qualified name ends in a name. -/
theorem qualifiedFrom_mayEnd (name : String) : (qualifiedFrom name).MayEnd := by
  refine MayEnd.bind (.ask _) fun dot => ?_
  cases dot with
  | true => exact (Ends.advance fun _ => Ends.ident.andThen fun _ => .pure _).mayEnd
  | false => exact .pure _

/-- The closing bracket of a list, before its value. -/
theorem ends_close {w : Lexeme} (ends : w.endsStatement = true) (x : α) :
    (do let _ ← expect w; pure x).Ends :=
  (Ends.close ends).andThen fun _ => .pure x

/-- A name, with or without arguments, ends a statement. -/
theorem typeNameWith_ends (h : Framed st ty ty) : (typeNameWith ty).Ends := by
  refine Ends.ident.andThen fun name => (qualifiedFrom_mayEnd name).bind fun base => ?_
  refine MayEnd.bind (.ask _) fun args => ?_
  cases args with
  | true =>
    refine (Ends.advance fun _ => ?_).mayEnd
    exact .after (Framed.bounded fun _ _ le => Framed.commaItems h le).forward fun _ => ends_close rfl _
  | false => exact .pure _

/-- An array ends as its elements do. -/
theorem arrayWith_ends (h : ty.Ends) : (arrayWith ty).Ends := by
  refine Ends.ask fun slice => ?_
  cases slice with
  | true => exact .advance fun _ => h.andThen fun _ => .pure _
  | false =>
    refine Ends.ask fun counted => ?_
    cases counted with
    | true => exact .advance fun _ => .expect fun _ => h.andThen fun _ => .pure _
    | false =>
      exact .after Framed.length.moves fun _ => .expect fun _ => h.andThen fun _ => .pure _

/-- A list ends at its closing bracket, which ends a statement. -/
theorem fieldListWith_ends (h : Framed true ty ty) (brackets : ty.Brackets) {opening close : Lexeme}
    (ends : close.endsStatement = true) (constraint : Bool) :
    (fieldListWith ty opening close constraint).Ends := by
  refine .expect fun _ => .after Framed.passSemis.moves fun _ => ?_
  have entry := Framed.nameAndType h brackets close constraint
  refine .after (Framed.bounded fun _ _ le => Framed.entriesUntil entry le).forward fun es => ?_
  refine (Ends.close ends).andThen fun _ => ?_
  cases fieldsOf es with
  | ok fields => exact .pure _
  | error cause => exact (Ends.fail cause).mayEnd

theorem paramsWith_ends (h : Framed true ty ty) (brackets : ty.Brackets) : (paramsWith ty).Ends :=
  fieldListWith_ends h brackets rfl false

/-- Results end at a bracket or as a type does, or there are none. -/
theorem resultsWith_mayEnd (h : Framed true ty ty) (brackets : ty.Brackets) (ends : ty.Ends) :
    (resultsWith ty).MayEnd := by
  refine MayEnd.bind (.ask _) fun listed => ?_
  cases listed with
  | true => exact (paramsWith_ends h brackets).mayEnd
  | false =>
    refine MayEnd.bind (.ask _) fun t => ?_
    split
    · exact (ends.andThen fun _ => .pure _).mayEnd
    · exact .pure _

/-- A signature ends at the bracket of its parameters, or with its results. -/
theorem signatureWith_ends (h : Framed true ty ty) (brackets : ty.Brackets) (ends : ty.Ends) :
    (signatureWith ty).Ends :=
  (paramsWith_ends h brackets).andThen fun _ =>
    (resultsWith_mayEnd h brackets ends).bind fun _ => .pure _

/-- A body ends at its brace. -/
theorem bodyOf_ends {member : Parser Field} (h : Framed true member member) :
    (bodyOf member).Ends := by
  exact .expect fun _ =>
    .after (Framed.bounded fun _ _ le => Framed.itemsUntil h.statement le).forward fun _ => ends_close rfl _

/-- Each form of a type ends at a lexeme that ends a statement. -/
theorem typeWith_ends (h : Framed true ty ty) (brackets : ty.Brackets) (ends : ty.Ends) :
    (typeWith ty).Ends := by
  refine Ends.ask fun t => ?_
  split
  · exact typeNameWith_ends h
  · exact .advance fun _ => ends.andThen fun _ => .pure _
  · exact .advance fun _ => arrayWith_ends ends
  · exact .advance fun _ => .expect fun _ => .after h.forward fun _ => .expect fun _ =>
      ends.andThen fun _ => .pure _
  · refine .advance fun _ => .ask fun send => ?_
    cases send with
    | true => exact .advance fun _ => ends.andThen fun _ => .pure _
    | false => exact ends.andThen fun _ => .pure _
  · exact .advance fun _ => .expect fun _ => ends.andThen fun _ => .pure _
  · exact .advance fun _ => signatureWith_ends h brackets ends
  · exact .expect fun _ => (bodyOf_ends (Framed.structFieldWith h brackets)).andThen fun _ => .pure _
  · exact .expect fun _ =>
      (bodyOf_ends (Framed.interfaceMemberWith h brackets)).andThen fun _ => .pure _
  · exact .advance fun _ => .after h.forward fun _ => ends_close rfl _
  · exact .fail _

/-- By induction on the levels. -/
theorem typeWithin_ends (n : Nat) : (typeWithin n).Ends := by
  induction n with
  | zero => exact .fail _
  | succ n ih => exact typeWith_ends (Framed.typeWithin (Nat.le_refl n)) (typeWithin_brackets n) ih

/-- A type ends at a lexeme that ends a statement, so that a line end behind it brings about a semicolon. -/
theorem type_ends : type.Ends := fun c c' x => typeWithin_ends _ c c' x

end Typings.Parser
