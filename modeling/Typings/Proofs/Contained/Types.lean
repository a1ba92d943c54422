import Typings.Proofs.Contained.Exposed

/-!
# Types keep to the tokens

Every production for types and their parts is contained, and passes a token if it stands for something
(`Parser.type_consumes`). As each level and each round passes one, the bounds on them, the number of
tokens ahead, are never met.
-/

namespace Typings.Parser

variable {n : Nat} {ty ty' : Parser TypeExpr}

/-- Levels of nesting, each of which passes a token. -/
theorem Consumes.bounded {α : Type} {p : Nat → Parser α}
    (h : ∀ {n m}, n ≤ m → Consumes n (p n) (p m)) (n : Nat) :
    Consumes n (Parser.bounded p) (Parser.bounded p) :=
  fun c _ => .bounded fun _ le => h le c (Nat.lt_succ_self _)

/-! ## Lengths and constraints -/

/-- The first operand passes a token; no operator is the mark of the end. -/
theorem Consumes.chain {isOperator : Lexeme → Bool} (no : isOperator .eof = false)
    {operand operand' : Parser TypeExpr} (h : Consumes n operand operand') :
    Consumes n (Parser.chain isOperator operand) (Parser.chain isOperator operand') := by
  intro c few
  refine .bind (h c few) fun first c₁ _ less => ?_
  refine .bind (.bounded fun m le => .operandsAfter no h le (Nat.lt_succ_self _) (by omega)) ?_
  intro more c₂ _ left
  exact .pure (by omega)

/-- Behind a name, a dot and another name are passed, or nothing. -/
theorem Contained.qualifiedFrom {c : Cursor} (name : String) :
    Contained c (c.rest.length + 1) (Parser.qualifiedFrom name) (Parser.qualifiedFrom name) := by
  refine isAt (fun dot => ?_) fun _ => pure (Nat.lt_succ_self _)
  refine advance (by simp [dot]) fun less => ?_
  exact bind ident fun sel c₁ _ less' => pure (by omega)

/-- An operand of a length passes a name, a literal, a bracket or a sign, each before an operand inside of
it. -/
theorem lengthOperandWith_consumes {operand operand' : Parser TypeExpr}
    (h : Consumes n operand operand') :
    Consumes (n + 1) (lengthOperandWith operand) (lengthOperandWith operand') := by
  intro c few
  refine .current ?_
  generalize here : c.current.lexeme = w
  split
  · exact .advance (by simp [here]) fun less => .pure less
  · refine .advance (by simp [here]) fun less => ?_
    refine .bind (.qualifiedFrom _) fun fn c₁ _ left => ?_
    refine .isAt (fun call => ?_) fun _ => .pure (by omega)
    refine .advance (by simp [call]) fun less₁ => ?_
    have args : Consumes n (chain isLengthOperator operand) (chain isLengthOperator operand') :=
      .chain rfl h
    refine .bind (.bounded fun m le => .commaItems args le (Nat.lt_succ_self _) (by omega)) ?_
    intro xs c₂ _ left₂
    exact .bind (.expect (by simp)) fun _ c₃ _ less₃ => .pure (by omega)
  · refine .advance (by simp [here]) fun less => ?_
    refine .bind (Consumes.chain rfl h _ (by omega)) fun inner c₁ _ less₁ => ?_
    exact .bind (.expect (by simp)) fun _ c₂ _ less₂ => .pure (by omega)
  · split
    · next sign =>
      refine .advance (here ▸ Lexeme.ne_eof_of_test isSign sign rfl) fun less => ?_
      exact .bind (h _ (by omega)) fun x c₁ _ less₁ => .pure (by omega)
    · exact .fail rfl (by simp)

/-- By induction on the levels: each level has passed a token, so that there are enough. -/
theorem lengthOperandWithin_consumes {n m : Nat} (le : n ≤ m) :
    Consumes n (lengthOperandWithin n) (lengthOperandWithin m) := by
  induction le using rounds_induction with
  | zero => exact fun c few => absurd few (Nat.not_lt_zero _)
  | succ n m _ ih =>
    exact lengthOperandWith_consumes ih

theorem length_consumes (n : Nat) : Consumes n length length :=
  .chain rfl (.bounded lengthOperandWithin_consumes n)

theorem constraintTerm_consumes (h : Consumes n ty ty') :
    Consumes n (constraintTerm ty) (constraintTerm ty') := by
  intro c few
  refine .isAt (fun tilde => ?_) fun _ => h c few
  refine .advance (by simp [tilde]) fun less => ?_
  exact .bind (h _ (by omega)) fun x c₁ _ less₁ => .pure (by omega)

theorem constraintWith_consumes (h : Consumes n ty ty') :
    Consumes n (constraintWith ty) (constraintWith ty') :=
  .chain rfl (constraintTerm_consumes h)

/-! ## Lists of fields -/

theorem entryType_consumes (h : Consumes n ty ty') (constraint : Bool) :
    Consumes n (entryType ty constraint) (entryType ty' constraint) := by
  cases constraint with
  | true => exact constraintWith_consumes h
  | false => exact h

theorem orVariadic_consumes {other other' : Parser TypeExpr} (h : Consumes n ty ty')
    (k : Consumes n other other') : Consumes n (orVariadic ty other) (orVariadic ty' other') := by
  intro c few
  refine .isAt (fun dots => ?_) fun _ => k c few
  refine .advance (by simp [dots]) fun less => ?_
  exact .bind (h _ (by omega)) fun elt c₁ _ less₁ => .pure (by omega)

theorem nameAndType_consumes (h : Consumes n ty ty') (close : Lexeme) (constraint : Bool) :
    Consumes n (nameAndType ty close constraint) (nameAndType ty' close constraint) := by
  intro c few
  refine .isAt (fun _ => ?_) fun _ => ?_
  · exact .bind (orVariadic_consumes h h c few) fun x c₁ _ less => .pure less
  · refine .askIf (fun ended o => Cursor.showsNamedArray_exposed o ended) (fun _ => ?_) fun _ => ?_
    · refine .bind .ident fun name c₁ _ less => ?_
      exact .bind (h c₁ (by omega)) fun x c₂ _ less₂ => .pure (by omega)
    · refine .bind (entryType_consumes h constraint c few) fun x c₁ _ less => ?_
      split
      · refine .current ?_
        split
        · exact .pure less
        · refine .bind (orVariadic_consumes h (entryType_consumes h constraint) c₁ (by omega)) ?_
          exact fun y c₂ _ less₂ => .pure (by omega)
      · exact .pure less

/-- The comment behind an entry is looked for where a token has been passed. -/
theorem Contained.entriesUntil {c : Cursor} {l n m : Nat} {close : Lexeme}
    {entry entry' : Parser (Option String × TypeExpr)} (h : Consumes l entry entry') (le : n ≤ m)
    (enough : c.rest.length < n) (few : c.rest.length < l) :
    Contained c (c.rest.length + 1) (Parser.entriesUntil close entry n)
      (Parser.entriesUntil close entry' m) := by
  induction le using rounds_induction generalizing c with
  | zero => exact absurd enough (Nat.not_lt_zero _)
  | succ n m _ ih =>
    refine isAt (fun _ => pure (Nat.lt_succ_self _)) fun _ => ?_
    refine bind (h c few) fun x c₁ reaches less => ?_
    have started := reaches.started less
    refine isAt (fun comma => ?_) fun _ => ?_
    · refine advance (by simp [comma]) fun less₁ => ?_
      refine commentBehind ((Cursor.Reaches.pass c₁ 1).passed_ne_nil started) fun _ c₂ left₂ => ?_
      refine bind passSemis fun _ c₃ _ left₃ => ?_
      refine bind (ih (by omega) (by omega)) fun es c₄ _ left₄ => ?_
      exact pure (by omega)
    · refine commentBehind started fun _ c₂ left₂ => ?_
      exact bind passSemis fun _ c₃ _ left₃ => pure (by omega)

/-- Entries cannot be put together for want of a type, or as some of them are named and some are not. -/
theorem groupNames_error {pending : List String} {es : List Entry} {cause : ParseCause}
    (h : groupNames pending es = .error cause) : cause = .missingType ∨ cause = .mixedNames := by
  fun_induction groupNames pending es with
  | case1 => cases h
  | case2 =>
    cases h
    exact .inl rfl
  | case3 pending e es name named ih =>
    cases behind : groupNames [] es with
    | ok fields =>
      rw [behind] at h
      cases h
    | error cause' =>
      rw [behind] at h
      cases h
      exact ih behind
  | case4 pending e es name unnamed typed ih => exact ih h
  | case5 =>
    cases h
    exact .inr rfl

/-- A list has its opening bracket to pass. -/
theorem fieldListWith_consumes (h : Consumes n ty ty') {opening close : Lexeme}
    (begins : opening ≠ .eof) (ends : close ≠ .eof) (constraint : Bool) :
    Consumes n (fieldListWith ty opening close constraint)
      (fieldListWith ty' opening close constraint) := by
  intro c few
  refine .bind (.expect begins) fun _ c₁ _ less => ?_
  refine .bind .passSemis fun _ c₂ _ left => ?_
  have entries := nameAndType_consumes h close constraint
  refine .bind (.bounded fun m le => .entriesUntil entries le (Nat.lt_succ_self _) (by omega)) ?_
  intro es c₃ _ left₃
  refine .bind (.expect ends) fun _ c₄ _ less₄ => ?_
  split
  · exact .pure (by omega)
  · next cause refused =>
    unfold fieldsOf at refused
    split at refused
    · obtain rfl | rfl := groupNames_error refused
      · exact .fail rfl (by simp)
      · exact .fail rfl (by simp)
    · cases refused

theorem paramsWith_consumes (h : Consumes n ty ty') : Consumes n (paramsWith ty) (paramsWith ty') := by
  refine fieldListWith_consumes h ?_ ?_ false <;> simp

/-- Results may be missing, and then no token is passed. -/
theorem resultsWith_contained (h : Consumes n ty ty') {c : Cursor} (few : c.rest.length < n) :
    Contained c (c.rest.length + 1) (resultsWith ty) (resultsWith ty') := by
  refine .isAt (fun _ => (paramsWith_consumes h c few).mono (Nat.le_succ _)) fun _ => ?_
  refine .current ?_
  split
  · exact .bind (h c few) fun x c₁ _ less => .pure (by omega)
  · exact .pure (Nat.lt_succ_self _)

theorem signatureWith_consumes (h : Consumes n ty ty') :
    Consumes n (signatureWith ty) (signatureWith ty') := by
  intro c few
  refine .bind (paramsWith_consumes h c few) fun params c₁ _ less => ?_
  exact .bind (resultsWith_contained h (by omega)) fun results c₂ _ left => .pure (by omega)

/-! ## Bodies -/

theorem fieldNames_contained {c : Cursor} :
    Contained c (c.rest.length + 1) fieldNames fieldNames := by
  refine .askIf (fun ended o => Cursor.showsFieldName_exposed o ended) (fun _ => ?_) fun _ =>
    .pure (Nat.lt_succ_self _)
  refine .bind .ident fun name c₁ _ less => ?_
  refine .bind (.bounded fun m le => .moreNames le (Nat.lt_succ_self _)) fun names c₂ _ left => ?_
  exact .pure (by omega)

theorem fieldTag_contained {c : Cursor} : Contained c (c.rest.length + 1) fieldTag fieldTag := by
  refine .current ?_
  split
  · next tag =>
    have some := Lexeme.ne_eof_of_test Lexeme.isString tag rfl
    exact .advance some fun less => .pure (by omega)
  · exact .pure (Nat.lt_succ_self _)

/-- A field passes its names or its type. -/
theorem structFieldWith_consumes (h : Consumes n ty ty') :
    Consumes n (structFieldWith ty) (structFieldWith ty') := by
  intro c few
  refine .docHere fun doc => ?_
  refine .bind fieldNames_contained fun names c₁ _ left => ?_
  refine .bind (h c₁ (by omega)) fun type c₂ reaches less => ?_
  refine .bind fieldTag_contained fun tag c₃ further left₃ => ?_
  refine .commentBehind (further.passed_ne_nil (reaches.started less)) fun comment c₄ left₄ => ?_
  exact .pure (by omega)

/-- A member passes its name or its element. -/
theorem interfaceMemberWith_consumes (h : Consumes n ty ty') :
    Consumes n (interfaceMemberWith ty) (interfaceMemberWith ty') := by
  intro c few
  refine .docHere fun doc => ?_
  refine .askIf (fun ended o => Cursor.showsMethod_exposed o ended) (fun _ => ?_) fun _ => ?_
  · refine .bind .ident fun name c₁ _ less => ?_
    refine .bind (signatureWith_consumes h c₁ (by omega)) fun type c₂ reaches less₂ => ?_
    exact .commentBehind (reaches.started less₂) fun comment c₃ left => .pure (by omega)
  · refine .bind (constraintWith_consumes h c few) fun type c₁ reaches less => ?_
    exact .commentBehind (reaches.started less) fun comment c₂ left => .pure (by omega)

/-- A body passes its brace, and each member a token, so that there are rounds enough. -/
theorem bodyOf_consumes {member member' : Parser Field} (h : Consumes n member member') :
    Consumes n (bodyOf member) (bodyOf member') := by
  intro c few
  refine .bind (.expect (by simp)) fun _ c₁ _ less => ?_
  refine .bind (.bounded fun m le => .itemsUntil h.statement le (Nat.lt_succ_self _) (by omega)) ?_
  intro fields c₂ _ left
  exact .bind (.expect (by simp)) fun _ c₃ _ less₃ => .pure (by omega)

theorem structTypeWith_consumes (h : Consumes n ty ty') :
    Consumes (n + 1) (structTypeWith ty) (structTypeWith ty') := by
  intro c few
  refine .bind (.expect (by simp)) fun _ c₁ _ less => ?_
  refine .bind (bodyOf_consumes (structFieldWith_consumes h) c₁ (by omega)) ?_
  exact fun fields c₂ _ less₂ => .pure (by omega)

theorem interfaceTypeWith_consumes (h : Consumes n ty ty') :
    Consumes (n + 1) (interfaceTypeWith ty) (interfaceTypeWith ty') := by
  intro c few
  refine .bind (.expect (by simp)) fun _ c₁ _ less => ?_
  refine .bind (bodyOf_consumes (interfaceMemberWith_consumes h) c₁ (by omega)) ?_
  exact fun methods c₂ _ less₂ => .pure (by omega)

/-! ## Types -/

theorem typeNameWith_consumes (h : Consumes n ty ty') :
    Consumes (n + 1) (typeNameWith ty) (typeNameWith ty') := by
  intro c few
  refine .bind .ident fun name c₁ _ less => ?_
  refine .bind (.qualifiedFrom name) fun base c₂ _ left => ?_
  refine .askIf (fun ended o => Cursor.showsTypeArgs_exposed o ended) (fun args => ?_) fun _ =>
    .pure (by omega)
  have opens : c₂.current.lexeme = .op .leftBracket :=
    of_decide_eq_true (Bool.and_eq_true_iff.1 args).1
  refine .advance (by simp [opens]) fun less₂ => ?_
  refine .bind (.bounded fun m le => .commaItems h le (Nat.lt_succ_self _) (by omega)) ?_
  intro xs c₃ _ left₃
  exact .bind (.expect (by simp)) fun _ c₄ _ less₄ => .pure (by omega)

theorem arrayWith_consumes (h : Consumes n ty ty') : Consumes n (arrayWith ty) (arrayWith ty') := by
  intro c few
  refine .isAt (fun slice => ?_) fun _ => .isAt (fun counted => ?_) fun _ => ?_
  · refine .advance (by simp [slice]) fun less => ?_
    exact .bind (h _ (by omega)) fun elt c₁ _ less₁ => .pure (by omega)
  · refine .advance (by simp [counted]) fun less => ?_
    refine .bind (.expect (by simp)) fun _ c₁ _ less₁ => ?_
    exact .bind (h _ (by omega)) fun elt c₂ _ less₂ => .pure (by omega)
  · refine .bind (length_consumes n c few) fun size c₁ _ less => ?_
    refine .bind (.expect (by simp)) fun _ c₂ _ less₂ => ?_
    exact .bind (h _ (by omega)) fun elt c₃ _ less₃ => .pure (by omega)

theorem mapWith_consumes (h : Consumes n ty ty') : Consumes n (mapWith ty) (mapWith ty') := by
  intro c few
  refine .bind (.expect (by simp)) fun _ c₁ _ less => ?_
  refine .bind (h c₁ (by omega)) fun key c₂ _ less₂ => ?_
  refine .bind (.expect (by simp)) fun _ c₃ _ less₃ => ?_
  exact .bind (h c₃ (by omega)) fun value c₄ _ less₄ => .pure (by omega)

theorem channelWith_consumes (h : Consumes n ty ty') :
    Consumes n (channelWith ty) (channelWith ty') := by
  intro c few
  refine .isAt (fun send => ?_) fun _ => ?_
  · refine .advance (by simp [send]) fun less => ?_
    exact .bind (h _ (by omega)) fun value c₁ _ less₁ => .pure (by omega)
  · exact .bind (h c few) fun value c₁ _ less => .pure less

/-- One level of types: the types inside have a token fewer ahead. -/
theorem typeWith_consumes (h : Consumes n ty ty') : Consumes (n + 1) (typeWith ty) (typeWith ty') := by
  intro c few
  refine .current ?_
  generalize here : c.current.lexeme = w
  -- a production of which the first token is passed before it
  have behind : ∀ {p q : Parser TypeExpr}, Consumes n p q → w ≠ .eof →
      Contained c c.rest.length (do let _ ← advance; p) (do let _ ← advance; q) := by
    intro p q k some
    exact .advance (by rwa [here]) fun less => (k _ (by omega)).mono (Nat.le_of_lt less)
  split
  · exact typeNameWith_consumes h c few
  · refine .advance (by simp [here]) fun less => ?_
    exact .bind (h _ (by omega)) fun x c₁ _ less₁ => .pure (by omega)
  · exact behind (arrayWith_consumes h) (by simp)
  · exact behind (mapWith_consumes h) (by simp)
  · exact behind (channelWith_consumes h) (by simp)
  · refine .advance (by simp [here]) fun less => ?_
    refine .bind (.expect (by simp)) fun _ c₁ _ less₁ => ?_
    exact .bind (h _ (by omega)) fun value c₂ _ less₂ => .pure (by omega)
  · exact behind (signatureWith_consumes h) (by simp)
  · exact structTypeWith_consumes h c few
  · exact interfaceTypeWith_consumes h c few
  · refine .advance (by simp [here]) fun less => ?_
    refine .bind (h _ (by omega)) fun inner c₁ _ less₁ => ?_
    exact .bind (.expect (by simp)) fun _ c₂ _ less₂ => .pure (by omega)
  · exact .fail rfl (by simp)

/-- By induction on the levels: a type inside of a type has a token less ahead. -/
theorem typeWithin_consumes {n m : Nat} (le : n ≤ m) :
    Consumes n (typeWithin n) (typeWithin m) := by
  induction le using rounds_induction with
  | zero => exact fun c few => absurd few (Nat.not_lt_zero _)
  | succ n m _ ih =>
    exact typeWith_consumes ih

/-- A type passes a token, within its tokens. -/
theorem type_consumes (n : Nat) : Consumes n type type := .bounded typeWithin_consumes n

theorem constraint_consumes (n : Nat) : Consumes n constraint constraint :=
  constraintWith_consumes (type_consumes n)

end Typings.Parser
