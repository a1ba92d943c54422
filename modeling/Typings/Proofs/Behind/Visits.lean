import Typings.Proofs.Behind.Walks

/-!
# What is read where

A visit is the reading of something that a comment may stand behind: the production for it has gone from
one cursor to another, where the comment is claimed (`Visit.Valid`). `Parser.Visits firm firm' before p
notables` says that what `p` gives holds the things that were there `before` and those of its visits, in
order, and that these end at stops of one walk. It is closed under all ways to put parsers together.
-/

namespace Typings

/-- The production for it reads it between two cursors. -/
def Notable.Reads : Notable → Cursor → Cursor → Prop
  | .field f, c, c' => ∃ n, Parser.structFieldWith (Parser.typeWithin n) c = .ok (f, c')
  | .element f, c, c' => ∃ n, Parser.interfaceMemberWith (Parser.typeWithin n) c = .ok (f, c')
  | .typeSpec spec, c, c' => ∃ doc, Parser.typeSpec doc c = .ok (spec, c')

/-- What is read, the cursor before it, and the cursor behind its last token, where the comment behind it
is claimed. -/
structure Visit where
  notable : Notable
  start : Cursor
  stop : Cursor

/-- The last token of what is read. -/
def Visit.last (v : Visit) : Token := v.stop.prev

/-- What is put together is read from the start of the visit to its stop, and its comment is the one behind
the last token of it. -/
structure Visit.Valid (v : Visit) : Prop where
  reads : v.notable.Reads v.start v.stop.dropCommentBehind
  comment_eq : v.notable.comment = v.stop.commentBehind

namespace Parser

variable {α β γ : Type} {firm firm₁ firm' : Bool} {before : List Notable}

/-- What the parser gives holds what was there before and what it visits. -/
def Visits (firm firm' : Bool) (before : List Notable) (p : Parser α) (notables : α → List Notable) :
    Prop :=
  ∀ (c c' : Cursor) (x : α), p c = .ok (x, c') → c.IsEnded →
    ∃ (visits : List Visit) (stops : List Cursor), Cursor.Walks firm c stops firm' c' ∧
      (visits.map Visit.stop).Sublist stops ∧ (∀ v ∈ visits, v.Valid) ∧
      notables x = before ++ visits.map Visit.notable ∧ c'.IsEnded

namespace Visits

variable {p q : Parser α} {f : α → Parser β} {notables : α → List Notable}
  {notables' : β → List Notable}

/-- A value visits nothing further. -/
theorem pure {x : α} (h : notables x = before) : Visits firm firm before (Pure.pure x) notables := by
  intro c c' y run ended
  obtain ⟨rfl, rfl⟩ := pure_eq_ok.1 run
  exact ⟨[], [], .stay _ _, .slnil, List.forall_mem_nil _, by rw [h, List.map_nil, List.append_nil],
    ended⟩

/-- What fails has no visits to account for. -/
theorem fail (cause : ParseCause) :
    Visits firm firm' before (Parser.fail cause : Parser α) notables :=
  fun _ _ _ run => absurd run fail_ne_ok

/-- From a firm place, whatever may start anywhere. -/
theorem any (h : Visits false firm' before p notables) : Visits firm firm' before p notables := by
  intro c c' x run ended
  obtain ⟨visits, stops, walks, rest⟩ := h c c' x run ended
  exact ⟨visits, stops, walks.any, rest⟩

/-- A firm place may be taken for any. -/
theorem ends (h : Visits firm true before p notables) : Visits firm firm' before p notables := by
  intro c c' x run ended
  obtain ⟨visits, stops, walks, rest⟩ := h c c' x run ended
  refine ⟨visits, stops, ?_, rest⟩
  cases firm' with
  | true => exact walks
  | false =>
    have loose := walks.trans (.loosen (.stay false c'))
    rwa [List.append_nil] at loose

/-- The notables of before stand ahead of those of a step. -/
theorem frame (h : Visits firm firm' [] p notables) :
    Visits firm firm' before p fun x => before ++ notables x := by
  intro c c' x run ended
  obtain ⟨visits, stops, walks, sub, valid, made, ended'⟩ := h c c' x run ended
  exact ⟨visits, stops, walks, sub, valid, congrArg (before ++ ·) made, ended'⟩

/-- A second step starts from the notables of the first. -/
theorem andThen (h : Visits firm firm₁ before p notables)
    (k : ∀ x, Visits firm₁ firm' (notables x) (f x) notables') :
    Visits firm firm' before (p >>= f) notables' := by
  intro c c' y run ended
  obtain ⟨x, c₁, first, rest⟩ := bind_eq_ok.1 run
  obtain ⟨visits, stops, walks, sub, valid, made, ended₁⟩ := h c c₁ x first ended
  obtain ⟨visits', stops', walks', sub', valid', made', ended'⟩ := k x c₁ c' y rest ended₁
  refine ⟨visits ++ visits', stops ++ stops', walks.trans walks', ?_, ?_, ?_, ended'⟩
  · rw [List.map_append]
    exact sub.append sub'
  · exact List.forall_mem_append.2 ⟨valid, valid'⟩
  · rw [made', made, List.map_append, List.append_assoc]

/-- The notables of two steps stand one behind the other. -/
theorem bind (h : Visits firm firm₁ [] p notables)
    (k : ∀ x, Visits firm₁ firm' (before ++ notables x) (f x) notables') :
    Visits firm firm' before (p >>= f) notables' := h.frame.andThen k

/-- Whatever goes before without visiting anything. -/
theorem after (h : Visits firm firm₁ [] p fun _ => [])
    (k : ∀ x, Visits firm₁ firm' before (f x) notables') :
    Visits firm firm' before (p >>= f) notables' :=
  h.bind fun x => (List.append_nil before).symm ▸ k x

/-! ## Looking and moving -/

theorem ask {look : Cursor → γ} {f : γ → Parser β}
    (k : ∀ z, Visits firm firm' before (f z) notables') :
    Visits firm firm' before (Parser.ask look >>= f) notables' := fun c c' y run => k (look c) c c' y run

theorem ifAsk {look : Cursor → Bool} (h : Visits firm firm' before p notables)
    (k : Visits firm firm' before q notables) :
    Visits firm firm' before (do if ← Parser.ask look then p else q : Parser α) notables := by
  refine ask fun shows => ?_
  cases shows with
  | true => exact h
  | false => exact k

/-- Passing some tokens. -/
theorem passing {n : Cursor → Nat} {value : Cursor → α} {f : α → Parser β}
    (k : ∀ x, Visits firm firm' before (f x) notables') :
    Visits firm firm' before ((fun c => .ok (value c, c.pass (n c))) >>= f) notables' := by
  intro c c' y run ended
  obtain ⟨x, c₁, first, rest⟩ := bind_eq_ok.1 run
  cases first
  obtain ⟨visits, stops, walks, made⟩ := k _ _ _ _ rest ended
  exact ⟨visits, stops, .pass _ walks, made⟩

theorem advance {f : Token → Parser β} (k : ∀ t, Visits firm firm' before (f t) notables') :
    Visits firm firm' before (Parser.advance >>= f) notables' := passing k

theorem passSemis {f : Unit → Parser β} (k : ∀ x, Visits firm firm' before (f x) notables') :
    Visits firm firm' before (Parser.passSemis >>= f) notables' := passing k

/-- Passing a token after a look at it that the end of the text does not stand makes a place firm. -/
theorem advanceIf (look : Token → Bool) {cause : ParseCause} {f : Token → Parser β}
    (some : ∀ t : Token, t.lexeme = .eof → look t = false)
    (k : ∀ t, Visits true firm' before (f t) notables') :
    Visits firm firm' before
      ((do if ← Parser.ask fun c => look c.current then Parser.advance else Parser.fail cause) >>= f)
      notables' := by
  intro c c' y run ended
  obtain ⟨t, c₁, first, rest⟩ := bind_eq_ok.1 run
  rw [ask_bind] at first
  split at first
  · next shows =>
    cases first
    obtain ⟨visits, stops, walks, made⟩ := k _ _ _ _ rest ended
    refine ⟨visits, stops, .step (fun nothing => ?_) walks, made⟩
    rw [Cursor.current, nothing, List.headD_nil, some _ ended] at shows
    cases shows
  · exact absurd first fail_ne_ok

/-- Behind a token that is passed, a comment may be looked up. -/
theorem expect {w : Lexeme} {f : Token → Parser β} (some : w ≠ .eof)
    (k : ∀ t, Visits true firm' before (f t) notables') :
    Visits firm firm' before (Parser.expect w >>= f) notables' :=
  advanceIf (fun t => t.lexeme = w) (fun _ last => decide_eq_false fun here => some (here ▸ last)) k

/-- Behind a name, a comment may be looked up. -/
theorem ident {f : String → Parser β} (k : ∀ name, Visits true firm' before (f name) notables') :
    Visits firm firm' before (Parser.ident >>= f) notables' := by
  simp only [Parser.ident, bind_assoc, pure_bind]
  exact advanceIf (fun t => t.lexeme.isIdent) (fun t last => by rw [last]; rfl) fun t => k t.lexeme.text

/-- Claiming the comment behind what is not visited. -/
theorem commentBehind {f : Option CommentGroup → Parser β}
    (k : ∀ m, Visits false firm' before (f m) notables') :
    Visits true firm' before (Parser.commentBehind >>= f) notables' := by
  intro c c' y run ended
  rw [commentBehind_bind] at run
  obtain ⟨visits, stops, walks, sub, made⟩ := k _ _ _ _ run ended
  exact ⟨visits, c :: stops, .claim walks, sub.cons c, made⟩

/-- Reading something and claiming the comment behind it. -/
theorem visit {make : α → Option CommentGroup → β} (notables : α → List Notable) (as : β → Notable)
    (reads : ∀ {c c' y}, (do let x ← p; let m ← Parser.commentBehind; Pure.pure (make x m)) c =
      .ok (y, c') → (as y).Reads c c')
    (comment : ∀ x m, (as (make x m)).comment = m)
    (same : ∀ x m, notables' (make x m) = notables x ++ [as (make x m)])
    (h : Visits firm true [] p notables) :
    Visits firm false [] (do let x ← p; let m ← Parser.commentBehind; Pure.pure (make x m)) notables' := by
  intro c c' y run ended
  have reads := reads run
  obtain ⟨x, c₁, first, rest⟩ := bind_eq_ok.1 run
  rw [commentBehind_bind] at rest
  obtain ⟨rfl, rfl⟩ := pure_eq_ok.1 rest
  obtain ⟨visits, stops, walks, sub, valid, made, ended₁⟩ := h c c₁ x first ended
  refine ⟨visits ++ [⟨as (make x c₁.commentBehind), c, c₁⟩], stops ++ [c₁], ?_, ?_, ?_, ?_, ended₁⟩
  · exact walks.trans (.claim (.stay false _))
  · rw [List.map_append]
    exact sub.append (.refl _)
  · refine List.forall_mem_append.2 ⟨valid, List.forall_mem_singleton.2 ⟨reads, comment x _⟩⟩
  · rw [same, made, List.map_append, List.append_assoc]
    rfl

/-! ## Loops -/

theorem bounded {p : Nat → Parser α} (h : ∀ n, Visits firm firm' before (p n) notables) :
    Visits firm firm' before (Parser.bounded p) notables := fun c c' x => h _ c c' x

theorem endStatement : Visits firm firm [] Parser.endStatement fun _ => [] := by
  apply ask
  intro t
  split
  · exact advance fun _ => pure rfl
  · exact pure rfl
  · exact pure rfl
  · exact pure rfl
  · exact fail _

/-- An item and the end of its statement. -/
theorem statement (h : Visits firm firm' before p notables) :
    Visits firm firm' before (do let x ← p; Parser.endStatement; Pure.pure x) notables :=
  h.andThen fun _ => after endStatement fun _ => pure rfl

/-- The visits of the members are in the order of the members. -/
theorem itemsUntil {close : Lexeme} {item : Parser α} (h : Visits false false [] item notables)
    (n : Nat) : Visits false false [] (Parser.itemsUntil close item n) fun xs => xs.flatMap notables := by
  induction n with
  | zero => exact fail _
  | succ n ih =>
    apply ifAsk (pure rfl)
    apply ifAsk
    · exact advance fun _ => ih
    · exact h.bind fun x => ih.bind fun xs => pure rfl

/-- The visits of the operands are in the order of the operands. -/
theorem operandsAfter {isOperator : Lexeme → Bool} {operand : Parser α}
    (h : Visits firm firm [] operand notables) (n : Nat) :
    Visits firm firm [] (Parser.operandsAfter isOperator operand n) fun xs =>
      xs.flatMap fun x => notables x.2 := by
  induction n with
  | zero => exact fail _
  | succ n ih =>
    apply ask
    intro t
    split
    · exact advance fun _ => h.bind fun x => ih.bind fun xs => pure rfl
    · exact pure rfl

/-- The visits of the items are in the order of the items. -/
theorem commaItems {close : Lexeme} {item : Parser α} (h : Visits firm firm [] item notables)
    (n : Nat) : Visits firm firm [] (Parser.commaItems close item n) fun xs => xs.flatMap notables := by
  induction n with
  | zero => exact fail _
  | succ n ih =>
    apply ifAsk (pure rfl)
    apply h.bind
    intro x
    apply ifAsk
    · exact advance fun _ => ih.bind fun xs => pure rfl
    · exact pure (List.flatMap_singleton ..)

theorem moreNames (n : Nat) : Visits firm firm [] (Parser.moreNames n) fun _ => [] := by
  induction n generalizing firm with
  | zero => exact fail _
  | succ n ih =>
    apply ifAsk
    · exact advance fun _ => ident fun _ => ends (ih.bind fun _ => pure rfl)
    · exact pure rfl

end Visits

end Parser

end Typings
