import Typings.Proofs.Joined.Endings

/-!
# Declarations inside a longer source

A declaration is a head, which is framed and whose last token ends a statement, and the end of that
statement. So it is read in a longer source as in its own, even if its own ends with it
(`Parser.declaration_isStatement`).
-/

namespace Typings.Parser

variable {α β : Type} {st : Bool}

/-! ## Passing over -/

/-- Passing as many tokens as are counted. -/
def passCounted (count : List Token → Option Nat) (cause : ParseCause) : Parser Unit := fun c =>
  match count c.rest with
  | some n => .ok ((), c.pass n)
  | none => .error ⟨cause, c.stop⟩

/-- What is counted ends with a closing bracket, and is the same whatever follows it. -/
def CountsToClose (count : List Token → Option Nat) : Prop :=
  ∀ {ts n}, count ts = some n → ∃ us t vs, ts = us ++ t :: vs ∧ n = us.length + 1 ∧
    t.lexeme.endsStatement = true ∧ ∀ k after, count (ts.map (Token.down k) ++ after) = some n

theorem passCounted_eq_ok {count : List Token → Option Nat} {cause : ParseCause} {c c' : Cursor}
    {x : Unit} (run : passCounted count cause c = .ok (x, c')) :
    ∃ n, count c.rest = some n ∧ c' = c.pass n := by
  unfold passCounted at run
  split at run
  · next n h =>
    cases run
    exact ⟨n, h, rfl⟩
  · cases run

/-- What is passed by a count is the same in a longer source, as the count goes by brackets of its own. -/
theorem Framed.passCounted {count : List Token → Option Nat} (closes : CountsToClose count)
    (cause : ParseCause) : Framed st (Parser.passCounted count cause) (Parser.passCounted count cause) where
  forward {c c' x} run := by
    obtain ⟨n, -, rfl⟩ := passCounted_eq_ok run
    exact .pass c n
  frame {s c c' x} run _ _ _ := by
    obtain ⟨n, counted, rfl⟩ := passCounted_eq_ok run
    obtain ⟨us, t, vs, rest, here, -, same⟩ := closes counted
    have le : n ≤ c.rest.length := by
      rw [rest, here, List.length_append, List.length_cons]
      omega
    have counted' : count (c.within s).rest = some n := same s.shift s.after
    rw [Parser.passCounted, counted']
    exact congrArg (fun c => Except.ok ((), c)) (Cursor.pass_within n (.inr le))

theorem Ends.passCounted {count : List Token → Option Nat} (closes : CountsToClose count)
    (cause : ParseCause) : (Parser.passCounted count cause).Ends := by
  intro c c' x ended run
  obtain ⟨n, counted, rfl⟩ := passCounted_eq_ok run
  obtain ⟨us, t, vs, rest, rfl, ends, -⟩ := closes counted
  refine ⟨ended, us, t, ?_, ends⟩
  have left : (us ++ [t] ++ vs).drop (us.length + 1) = vs := List.drop_left' (by simp)
  rw [Cursor.pass, rest, List.append_cons, left, List.append_assoc]
  rfl

/-- The number of tokens up to the brace that closes a block. -/
def blockLength? (ts : List Token) : Option Nat :=
  (blockEnd? 1 ts).map fun behind => ts.length - behind.length

/-- The end of a block is behind a brace, and is found whatever follows. -/
theorem exists_of_blockEnd? {depth : Nat} {ts behind : List Token}
    (h : blockEnd? depth ts = some behind) :
    (∃ us t, ts = us ++ t :: behind ∧ t.lexeme = .op .rightBrace) ∧ ∀ k after,
      blockEnd? depth (ts.map (Token.down k) ++ after) = some (behind.map (Token.down k) ++ after) := by
  induction ts generalizing depth with
  | nil => cases h
  | cons t ts ih =>
    have further : ∀ {depth}, blockEnd? depth ts = some behind →
        ∃ us t', t :: ts = us ++ t' :: behind ∧ t'.lexeme = .op .rightBrace := by
      intro depth h
      obtain ⟨⟨us, t', tokens, closes⟩, -⟩ := ih h
      exact ⟨t :: us, t', by rw [tokens, List.cons_append], closes⟩
    have lexeme : ∀ k, (t.down k).lexeme = t.lexeme := fun _ => rfl
    simp only [List.map_cons, List.cons_append, blockEnd?, lexeme] at h ⊢
    split at h
    · exact ⟨further h, (ih h).2⟩
    · next closes =>
      split at h
      · next last =>
        cases h
        exact ⟨⟨[], t, rfl, closes⟩, fun k after => by rw [if_pos last]⟩
      · next deeper =>
        refine ⟨further h, fun k after => ?_⟩
        rw [if_neg deeper]
        exact (ih h).2 k after
    · exact ⟨further h, (ih h).2⟩

/-- A block is counted up to its closing brace. -/
theorem countsToClose_block : CountsToClose blockLength? := by
  intro ts n h
  obtain ⟨behind, found, rfl⟩ := Option.map_eq_some_iff.1 h
  obtain ⟨⟨us, t, tokens, closes⟩, same⟩ := exists_of_blockEnd? found
  refine ⟨us, t, behind, tokens, ?_, by rw [closes]; rfl, fun k after => ?_⟩
  · rw [tokens, List.length_append, List.length_cons]
    omega
  · rw [blockLength?, same k after]
    simp [Nat.add_sub_add_right]

theorem passBlock_eq :
    passBlock = expect (.op .leftBrace) >>= fun _ => passCounted blockLength? .openBody := by
  refine congrArg (fun p : Parser Unit => expect (.op .leftBrace) >>= fun _ => p) ?_
  funext c
  rw [passCounted, blockLength?]
  cases blockEnd? 1 c.rest <;> rfl

/-- The number of tokens up to a closing parenthesis. -/
def groupLength? (ts : List Token) : Option Nat :=
  (ts.findIdx? fun t => t.lexeme = .op .rightParen).map (· + 1)

/-- A group of imports is counted up to its closing parenthesis. -/
theorem countsToClose_group : CountsToClose groupLength? := by
  intro ts n h
  obtain ⟨i, found, rfl⟩ := Option.map_eq_some_iff.1 h
  obtain ⟨lt, closes, -⟩ := List.findIdx?_eq_some_iff_getElem.1 found
  refine ⟨ts.take i, ts[i], ts.drop (i + 1), ?_, ?_, ?_, fun k after => ?_⟩
  · rw [List.getElem_cons_drop, List.take_append_drop]
  · rw [List.length_take_of_le (Nat.le_of_lt lt)]
  · rw [of_decide_eq_true closes]
    rfl
  · have moved : (ts.map (Token.down k)).findIdx? (fun t => t.lexeme = .op .rightParen) = some i := by
      rw [List.findIdx?_map]
      exact found
    rw [groupLength?, List.findIdx?_append, moved]
    rfl

theorem passImportGroup_eq : passImportGroup = passCounted groupLength? .openImports := by
  funext c
  rw [passImportGroup, passCounted, groupLength?]
  cases c.rest.findIdx? fun t => t.lexeme = .op .rightParen <;> rfl

/-! ## Heads -/

theorem typeParams_framed : Framed st typeParams typeParams := by
  refine .bind (.fieldListWith .type type_brackets (by decide) (by decide) true) fun fields => ?_
  split
  · exact .fail _ _
  · exact .pure _

/-- What stands at the cursor if it shows there, and else a value of its own. -/
def optional (look : Cursor → Bool) (p : Parser α) (x : α) : Parser α := do
  if ← ask look then p else pure x

/-- What is shown to follow is parsed. -/
theorem optional_of_true {look : Cursor → Bool} {c : Cursor} (h : look c = true) (p : Parser α) (x : α) :
    optional look p x c = p c := by
  rw [optional, ask_bind, if_pos h]

/-- What is not shown to follow is left out. -/
theorem optional_of_false {look : Cursor → Bool} {c : Cursor} (h : look c = false) (p : Parser α)
    (x : α) : optional look p x c = .ok (x, c) := by
  rw [optional, ask_bind, if_neg (by rw [h]; exact Bool.false_ne_true)]
  rfl

theorem ite_bind (b : Bool) (p q : Parser α) (f : α → Parser β) :
    (if b = true then p else q) >>= f = if b = true then p >>= f else q >>= f := by
  cases b <;> rfl

theorem Framed.optional {look : Cursor → Bool} {p : Parser α}
    (same : ∀ (s : Surroundings) (c : Cursor), s.Inside c → look (c.within s) = look c)
    (h : Framed st p p) (x : α) : Framed st (Parser.optional look p x) (Parser.optional look p x) := by
  refine bind (ask same) fun shows => ?_
  cases shows with
  | true => exact h
  | false => exact pure x

theorem MayEnd.optional {look : Cursor → Bool} {p : Parser α} (h : p.Ends) (x : α) :
    (Parser.optional look p x).MayEnd := by
  refine MayEnd.bind (.ask look) fun shows => ?_
  cases shows with
  | true => exact h.mayEnd
  | false => exact .pure x

theorem typeSpec_eq (doc : Option CommentGroup) : typeSpec doc = (do
    let name ← ident
    let params ← optional showsTypeParams typeParams []
    let isAlias ← isAt (.op .assign)
    let _ ← (if isAlias then discard advance else pure ())
    let type ← type
    let comment ← commentBehind
    pure { name := name, type := type, typeParams := params, doc := doc, comment := comment,
           isAlias := isAlias }) := by
  simp only [typeSpec, optional, bind_assoc, ite_bind, pure_bind]

theorem specParams_framed : Framed st (optional showsTypeParams typeParams [])
    (optional showsTypeParams typeParams []) :=
  .optional (fun _ _ => Cursor.showsTypeParams_within) typeParams_framed []

/-- A type specification is parsed alike inside of a longer source. -/
theorem typeSpec_framed (doc : Option CommentGroup) : Framed st (typeSpec doc) (typeSpec doc) := by
  rw [typeSpec_eq]
  refine .afterIdent fun name => ?_
  refine .bind specParams_framed fun params => ?_
  refine .bind (.isAt _) fun isAlias => .bind ?_ fun _ => .bind .type fun type => ?_
  · cases isAlias with
    | true => exact .advance fun _ _ _ => .pure _
    | false => exact .pure _
  · exact .bind .commentBehind fun _ => .pure _

/-- A type specification ends as its type does. -/
theorem typeSpec_ends (doc : Option CommentGroup) : (typeSpec doc).Ends := by
  rw [typeSpec_eq]
  refine .after Framed.ident.moves fun name => ?_
  refine .after specParams_framed.moves fun params => .ask fun isAlias => ?_
  refine .after ?_ fun _ => type_ends.andThen fun type => MayEnd.commentBehind.bind fun _ => .pure _
  cases isAlias with
  | true => exact (Framed.advance fun _ _ _ => .pure _).moves
  | false => exact (Framed.pure ()).moves

/-- A specification in a group of them, with the comments above it. -/
def groupItem : Parser TypeSpec := do
  let doc ← docHere
  typeStatement doc

theorem groupItem_framed : Framed true groupItem groupItem :=
  .bind .docHere fun doc => (typeSpec_framed doc).statement

/-- A type declaration before the end of its statement. -/
def typeDeclHead : Parser (List TypeSpec) := do
  let doc ← docHere
  let _ ← expect (.keyword .typeKw)
  if ← isAt (.op .leftParen) then
    let _ ← advance
    let specs ← bounded (itemsUntil (.op .rightParen) groupItem)
    let _ ← expect (.op .rightParen)
    pure specs
  else
    let spec ← typeSpec doc
    pure [spec]

/-- A type declaration is parsed alike inside of a longer source, be it in a group or not. -/
theorem typeDeclHead_framed : Framed false typeDeclHead typeDeclHead := by
  refine .bind .docHere fun doc => .expect (by decide) fun _ _ => .bind (.isAt _) fun group => ?_
  cases group with
  | true =>
    exact .advance fun _ _ _ => .bind (.bounded fun _ _ le => .itemsUntil groupItem_framed le)
      fun _ => .expect (by decide) fun _ _ => .pure _
  | false => exact .bind (typeSpec_framed doc) fun _ => .pure _

theorem typeDeclHead_ends : typeDeclHead.Ends := by
  refine .ask fun doc => .expect fun _ => .ask fun group => ?_
  cases group with
  | true =>
    exact .advance fun _ =>
      .after (Framed.bounded fun _ _ le => .itemsUntil groupItem_framed le).moves
        fun _ => ends_close rfl _
  | false => exact (typeSpec_ends doc).andThen fun _ => .pure _

/-- A function declaration before the end of its statement. -/
def funcDeclHead : Parser FuncDecl := do
  let doc ← docHere
  let _ ← expect (.keyword .funcKw)
  let recv ← optional (fun c => c.current.lexeme = .op .leftParen) (some <$> receiver) none
  let name ← ident
  let typeParams ← optional (fun c => c.current.lexeme = .op .leftBracket) typeParams []
  let params ← paramsWith type
  let results ← resultsWith type
  optional (fun c => c.current.lexeme = .op .leftBrace) passBlock ()
  pure { name := name, params := params, results := results, typeParams := typeParams,
         recv := recv, doc := doc }

/-- A receiver is parsed alike inside of a longer source. -/
theorem receiver_framed : Framed st receiver receiver := by
  refine .bind (.fieldListWith .type type_brackets (by decide) (by decide) false) fun fields => ?_
  split
  · exact .pure _
  · exact .fail _ _

theorem someReceiver_framed : Framed st (some <$> receiver) (some <$> receiver) := by
  rw [map_eq_pure_bind]
  exact .bind receiver_framed fun _ => .pure _

theorem passBlock_framed : Framed st passBlock passBlock := by
  rw [passBlock_eq]
  exact .expect (by decide) fun _ _ => .passCounted countsToClose_block _

/-- A look at the lexeme at the cursor. -/
theorem current_lexeme_within (w : Lexeme) (s : Surroundings) (c : Cursor) (inside : s.Inside c) :
    decide ((c.within s).current.lexeme = w) = decide (c.current.lexeme = w) := by
  rw [Cursor.current_lexeme_within inside]

/-- A function is parsed alike inside of a longer source, with its body or without. -/
theorem funcDeclHead_framed : Framed false funcDeclHead funcDeclHead := by
  refine .bind .docHere fun doc => .expect (by decide) fun _ _ => ?_
  refine .bind (.optional (current_lexeme_within _) someReceiver_framed none) fun recv => ?_
  refine .bind .ident fun name => ?_
  refine .bind (.optional (current_lexeme_within _) typeParams_framed []) fun typeParams => ?_
  refine .bind (.paramsWith .type type_brackets) fun params => ?_
  refine .bind (.resultsWith .type type_brackets) fun results => ?_
  exact .bind (.optional (current_lexeme_within _) passBlock_framed ()) fun _ => .pure _

theorem passBlock_ends : passBlock.Ends := by
  rw [passBlock_eq]
  exact .expect fun _ => .passCounted countsToClose_block _

/-- A function ends with its body, or as its signature does. -/
theorem funcDeclHead_ends : funcDeclHead.Ends := by
  refine .ask fun doc => .expect fun _ => ?_
  refine .after (Framed.optional (current_lexeme_within _) someReceiver_framed none).moves
    fun recv => ?_
  refine .after Framed.ident.moves fun name => ?_
  refine .after (Framed.optional (current_lexeme_within _) typeParams_framed []).moves
    fun typeParams => ?_
  refine (paramsWith_ends .type type_brackets).andThen fun params => ?_
  refine (resultsWith_mayEnd .type type_brackets type_ends).bind fun results => ?_
  exact (MayEnd.optional passBlock_ends ()).bind fun _ => .pure _

/-- An import before the end of its statement. -/
def importHead : Parser Unit := do
  let _ ← expect (.keyword .importKw)
  if ← isAt (.op .leftParen) then
    let _ ← advance
    passImportGroup
  else
    let t ← current
    let _ ← (if t.lexeme.isIdent || t.lexeme = .op .dot then discard advance else pure ())
    let path ← current
    if path.lexeme.isString then discard advance else fail (.expected .importPath)

theorem importHead_framed : Framed false importHead importHead := by
  refine .expect (by decide) fun _ _ => .bind (.isAt _) fun group => ?_
  cases group with
  | true =>
    refine .advance fun _ _ _ => ?_
    rw [passImportGroup_eq]
    exact .passCounted countsToClose_group _
  | false =>
    refine .current fun t u same => ?_
    rw [same]
    refine .bind ?_ fun _ => .current fun t u same => ?_
    · split
      · exact .advance fun _ _ _ => .pure _
      · exact .pure _
    · rw [same]
      split
      · exact .advance fun _ _ _ => .pure _
      · exact .fail _ _

theorem importHead_ends : importHead.Ends := by
  refine .expect fun _ => .ask fun group => ?_
  cases group with
  | true =>
    refine .advance fun _ => ?_
    rw [passImportGroup_eq]
    exact .passCounted countsToClose_group _
  | false =>
    refine .ask fun t => .after ?_ fun _ c c' x ended run => ?_
    · split
      · exact (Framed.advance fun _ _ _ => .pure _).moves
      · exact (Framed.pure ()).moves
    · rw [current_bind] at run
      split at run
      · next literal =>
        cases run
        refine Ends.of_current ended ?_
        cases lexeme : c.current.lexeme with
        | literal kind text => rfl
        | _ =>
          rw [lexeme] at literal
          cases literal
      · exact absurd run fail_ne_ok

/-! ## Declarations -/

/-- A statement whose value is made of that of its head. -/
def statementOf (head : Parser α) (f : α → β) : Parser β := do
  let x ← head
  endStatement
  pure (f x)

theorem declaration_eq : declaration = (do
    let t ← current
    match t.lexeme with
    | .keyword .importKw => statementOf importHead fun _ => []
    | .keyword .typeKw => statementOf typeDeclHead (List.map .typeSpec)
    | .keyword .funcKw => statementOf funcDeclHead fun decl => [.func decl]
    | _ => fail (.expected .declaration)) := by
  have importing : (do passImport; pure []) = statementOf importHead fun _ => ([] : List Decl) := by
    simp only [passImport, statementOf, importHead, bind_assoc, ite_bind, pure_bind]
  have typing : (do let specs ← typeDecl; pure (specs.map .typeSpec)) =
      statementOf typeDeclHead (List.map Decl.typeSpec) := by
    simp only [typeDecl, statementOf, typeDeclHead, groupItem, typeStatement, bind_assoc, ite_bind, pure_bind]
  have func : (do let decl ← funcDecl; pure [.func decl]) =
      statementOf funcDeclHead fun decl => [Decl.func decl] := by
    simp only [funcDecl, statementOf, funcDeclHead, optional, isAt, bind_assoc, ite_bind, pure_bind]
  rw [← importing, ← typing, ← func]
  rfl

/-- The lexeme ends a statement, or stands where one has ended. -/
def Closes (w : Lexeme) : Prop := w = .op .semicolon ∨ w.endsStatement = true

/-- The parser passes whole statements: in a longer source as in its own, even if its own source ends
with the last of them. -/
structure IsStatement (p : Parser α) : Prop where
  forward : p.Forward
  closes : ∀ {c c' : Cursor} {x : α}, c.IsEnded → p c = .ok (x, c') →
    ∃ us t, c.rest = us ++ t :: c'.rest ∧ Closes t.lexeme
  within : ∀ {s : Surroundings} {c c' : Cursor} {x : α}, p c = .ok (x, c') → s.Clear c → s.Inside c →
    p (c.within s) = .ok (x, c'.within s)

/-- The end of a statement passes a semicolon, or nothing. -/
theorem endStatement_cases {c c' : Cursor} {x : Unit} (run : endStatement c = .ok (x, c')) :
    c.current.lexeme = .op .semicolon ∧ c' = c.advance ∨ c' = c := by
  rw [endStatement, current_bind] at run
  generalize c.current.lexeme = w at run ⊢
  split at run
  · cases run
    exact .inl ⟨rfl, rfl⟩
  · exact .inr (pure_eq_ok.1 run).2.symm
  · exact .inr (pure_eq_ok.1 run).2.symm
  · exact .inr (pure_eq_ok.1 run).2.symm
  · exact absurd run fail_ne_ok

/-- What ends a statement may be the last semicolon of a source. -/
theorem endStatement_within {s : Surroundings} {c c' : Cursor} {x : Unit}
    (run : endStatement c = .ok (x, c')) (inside : s.Inside c) :
    endStatement (c.within s) = .ok (x, c'.within s) := by
  rw [endStatement, current_bind] at run ⊢
  rw [Cursor.current_lexeme_within inside]
  generalize c.current.lexeme = w at run ⊢
  split at run
  · cases run
    exact congrArg (fun c => Except.ok ((), c)) (Cursor.advance_within inside)
  · exact pure_eq_ok.2 ⟨rfl, by rw [(pure_eq_ok.1 run).2]⟩
  · exact pure_eq_ok.2 ⟨rfl, by rw [(pure_eq_ok.1 run).2]⟩
  · exact pure_eq_ok.2 ⟨rfl, by rw [(pure_eq_ok.1 run).2]⟩
  · exact absurd run fail_ne_ok

/-- Behind a token that ends a statement, the last semicolon is still ahead. -/
theorem inside_of_endsStatement {s : Surroundings} {c c' : Cursor} (reaches : c.Reaches c')
    (inside : s.Inside c) {us : List Token} {t : Token} (tokens : c.rest = us ++ t :: c'.rest)
    (ends : t.lexeme.endsStatement = true) : s.Inside c' := by
  by_cases behind : c'.rest = []
  · rcases inside with ⟨nothing, stop⟩ | ⟨ts, last, rest, semi⟩
    · exact .inl ⟨nothing, reaches.stop ▸ stop⟩
    · rw [behind, rest] at tokens
      obtain rfl : last = t := List.singleton_inj.1 (List.append_inj' tokens rfl).2
      rw [semi] at ends
      cases ends
  · exact inside.forward reaches behind

/-- A head that is parsed alike, and ends as statements do, makes a statement. -/
theorem isStatement_of {head : Parser α} (framed : Framed false head head) (ends : head.Ends)
    (f : α → β) : (statementOf head f).IsStatement := by
  have parts : ∀ {c c' : Cursor} {y : β}, statementOf head f c = .ok (y, c') →
      ∃ x c₁, head c = .ok (x, c₁) ∧ endStatement c₁ = .ok ((), c') ∧ f x = y := by
    intro c c' y run
    obtain ⟨x, c₁, first, run⟩ := bind_eq_ok.1 run
    obtain ⟨_, c₂, last, run⟩ := bind_eq_ok.1 run
    obtain ⟨same, rfl⟩ := pure_eq_ok.1 run
    exact ⟨x, c₁, first, last, same⟩
  constructor
  · intro c c' y run
    obtain ⟨x, c₁, first, last, -⟩ := parts run
    exact (framed.forward first).trans (Framed.endStatement.moves last)
  · intro c c' y ended run
    obtain ⟨x, c₁, first, last, -⟩ := parts run
    obtain ⟨ended₁, us, t, tokens, closes⟩ := ends c c₁ x ended first
    rcases endStatement_cases last with ⟨semi, rfl⟩ | rfl
    · cases rest : c₁.rest with
      | nil =>
        rw [Cursor.current, rest, List.headD_nil, show c₁.stop.lexeme = .eof from ended₁] at semi
        cases semi
      | cons v vs =>
        rw [Cursor.current, rest] at semi
        refine ⟨us ++ [t], v, ?_, .inl semi⟩
        rw [tokens, Cursor.advance, Cursor.pass, rest]
        simp
    · exact ⟨us, t, tokens, .inr closes⟩
  · intro s c c' y run clear inside
    obtain ⟨x, c₁, first, last, rfl⟩ := parts run
    obtain ⟨-, us, t, tokens, closes⟩ := ends c c₁ x clear.ended first
    have inside₁ := inside_of_endsStatement (framed.forward first) inside tokens closes
    have first' := framed.frame first clear inside₁ fun same => absurd same Bool.false_ne_true
    exact bind_eq_ok.2 ⟨x, _, first', bind_eq_ok.2 ⟨(), _, endStatement_within last inside₁, rfl⟩⟩

namespace IsStatement

theorem fail (cause : ParseCause) : (Parser.fail cause : Parser α).IsStatement :=
  ⟨fun run => absurd run fail_ne_ok, fun _ run => absurd run fail_ne_ok,
    fun run => absurd run fail_ne_ok⟩

/-- Statements that the lexeme at the cursor tells apart. -/
theorem current {f : Token → Parser α} (same : ∀ t u : Token, u.lexeme = t.lexeme → f u = f t)
    (h : ∀ t, (f t).IsStatement) : (Parser.current >>= f).IsStatement := by
  refine ⟨fun run => (h _).forward run, fun ended run => (h _).closes ended run, ?_⟩
  intro s c c' x run clear inside
  rw [current_bind] at run ⊢
  rw [same _ _ (Cursor.current_lexeme_within inside)]
  exact (h c.current).within run clear inside

end IsStatement

/-- Declarations are statements: at the seam of two sources, the first has ended. -/
theorem declaration_isStatement : declaration.IsStatement := by
  rw [declaration_eq]
  refine .current (fun t u same => by rw [same]) fun t => ?_
  split
  · exact isStatement_of importHead_framed importHead_ends _
  · exact isStatement_of typeDeclHead_framed typeDeclHead_ends _
  · exact isStatement_of funcDeclHead_framed funcDeclHead_ends _
  · exact .fail _

end Typings.Parser
