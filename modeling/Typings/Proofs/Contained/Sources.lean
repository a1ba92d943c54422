import Typings.Proofs.Contained.Decls

/-!
# Sources are read to their end, or refused at one of their tokens

Whatever a source holds, the scanner and the parsers for files and for types end
(`Parser.stays_inside`): with an error of the scanner, with a value and the cursor at the token that
ends the text, or with a failure at a token of the source. Nothing outside of the tokens is looked at,
and what a production gives has a token of its own.
-/

namespace Typings

variable {α : Type}

namespace Parser

/-- A type, or constraint, and nothing else but semicolons. -/
def wholeType : Parser TypeExpr := do
  let type ← constraint
  expectEnd
  pure type

/-- Whatever is ahead, the parser is contained, and passes a token if it succeeds. -/
def Consuming (p : Parser α) : Prop := ∀ c : Cursor, Contained c c.rest.length p p

theorem consuming_of_consumes {p : Parser α} (h : ∀ n, Consumes n p p) : p.Consuming :=
  fun c => h (c.rest.length + 1) c (Nat.lt_succ_self _)

/-- What gives a type, a part of one, a specification, a field or a declaration passes a token. -/
structure ProductionsConsume : Prop where
  type : Parser.type.Consuming
  constraint : Parser.constraint.Consuming
  constraintTerm : (Parser.constraintTerm Parser.type).Consuming
  typeName : (typeNameWith Parser.type).Consuming
  signature : (signatureWith Parser.type).Consuming
  structType : (structTypeWith Parser.type).Consuming
  interfaceType : (interfaceTypeWith Parser.type).Consuming
  length : Parser.length.Consuming
  lengthOperand : (bounded lengthOperandWithin).Consuming
  entryType : ∀ constraint, (Parser.entryType Parser.type constraint).Consuming
  structField : (structFieldWith Parser.type).Consuming
  interfaceMember : (interfaceMemberWith Parser.type).Consuming
  receiver : Parser.receiver.Consuming
  typeSpec : ∀ doc, (Parser.typeSpec doc).Consuming
  typeDecl : Parser.typeDecl.Consuming
  funcDecl : Parser.funcDecl.Consuming
  declaration : Parser.declaration.Consuming

theorem productionsConsume : ProductionsConsume where
  type := consuming_of_consumes type_consumes
  constraint := consuming_of_consumes constraint_consumes
  constraintTerm := consuming_of_consumes fun n => constraintTerm_consumes (type_consumes n)
  typeName c := typeNameWith_consumes (type_consumes c.rest.length) c (Nat.lt_succ_self _)
  signature := consuming_of_consumes fun n => signatureWith_consumes (type_consumes n)
  structType c := structTypeWith_consumes (type_consumes c.rest.length) c (Nat.lt_succ_self _)
  interfaceType c := interfaceTypeWith_consumes (type_consumes c.rest.length) c (Nat.lt_succ_self _)
  length := consuming_of_consumes length_consumes
  lengthOperand := consuming_of_consumes (.bounded lengthOperandWithin_consumes)
  entryType constraint := consuming_of_consumes fun n => entryType_consumes (type_consumes n) constraint
  structField := consuming_of_consumes fun n => structFieldWith_consumes (type_consumes n)
  interfaceMember := consuming_of_consumes fun n => interfaceMemberWith_consumes (type_consumes n)
  receiver := consuming_of_consumes receiver_consumes
  typeSpec doc := consuming_of_consumes (typeSpec_consumes doc)
  typeDecl := consuming_of_consumes typeDecl_consumes
  funcDecl := consuming_of_consumes funcDecl_consumes
  declaration := consuming_of_consumes declaration_consumes

/-! ## The end of the text -/

theorem expectEnd_contained {c : Cursor} : Contained c (c.rest.length + 1) expectEnd expectEnd := by
  refine .bind .passSemis fun _ c₁ _ left => ?_
  exact .isAt (fun _ => .pure left) fun _ => .fail rfl (by simp)

theorem wholeType_contained {c : Cursor} :
    Contained c (c.rest.length + 1) wholeType wholeType := by
  refine .bind (constraint_consumes _ c (Nat.lt_succ_self _)) fun type c₁ _ less => ?_
  exact .bind expectEnd_contained fun _ c₂ _ left => .pure (by omega)

/-- Items are read up to where the closing lexeme is. -/
theorem current_of_itemsUntil {close : Lexeme} {item : Parser α} {n : Nat} {c c' : Cursor}
    {xs : List α} (run : itemsUntil close item n c = .ok (xs, c')) : c'.current.lexeme = close := by
  induction n generalizing c xs with
  | zero => exact absurd run fail_ne_ok
  | succ n ih =>
    rw [itemsUntil, isAt_bind] at run
    split at run
    · next closed =>
      obtain ⟨-, rfl⟩ := pure_eq_ok.1 run
      exact of_decide_eq_true closed
    · rw [isAt_bind] at run
      split at run
      · exact ih run
      · obtain ⟨x, c₁, -, run⟩ := bind_eq_ok.1 run
        obtain ⟨ys, c₂, more, last⟩ := bind_eq_ok.1 run
        obtain ⟨-, rfl⟩ := pure_eq_ok.1 last
        exact ih more

/-- The parser succeeds only where the text ends. -/
def AtEnd (p : Parser α) : Prop := ∀ {c c' x}, p c = .ok (x, c') → c'.current.lexeme = .eof

theorem file_atEnd : file.AtEnd := by
  intro c c' x run
  rw [file, passSemis_bind] at run
  obtain ⟨package, c₁, -, run⟩ := bind_eq_ok.1 run
  obtain ⟨decls, c₂, items, last⟩ := bind_eq_ok.1 run
  obtain ⟨-, rfl⟩ := pure_eq_ok.1 last
  exact current_of_itemsUntil items

theorem wholeType_atEnd : wholeType.AtEnd := by
  intro c c' x run
  obtain ⟨type, c₁, -, run⟩ := bind_eq_ok.1 run
  obtain ⟨_, c₂, finish, last⟩ := bind_eq_ok.1 run
  obtain ⟨-, rfl⟩ := pure_eq_ok.1 last
  rw [expectEnd, passSemis_bind, isAt_bind] at finish
  split at finish
  · next here =>
    obtain ⟨-, rfl⟩ := pure_eq_ok.1 finish
    exact of_decide_eq_true here
  · exact absurd finish fail_ne_ok

end Parser

/-! ## Whole sources -/

/-- Over the tokens of a source, the parser comes to its result inside of them: a value with all
tokens passed but the one that ends the text, or a failure at one of them, which is not for want of
rounds or levels. The last token could as well be passed, and other tokens be around: nothing would
change. -/
structure Layout.EndsInside (layout : Layout) (p : Parser α) (result : Except SourceError α) :
    Prop where
  outcome : (∃ x c, p (.ofLayout layout) = .ok (x, c) ∧ c.passed = layout.tokens.reverse ∧
      c.rest = [] ∧ c.current = layout.last ∧ result = .ok x) ∨
    ∃ e, p (.ofLayout layout) = .error e ∧ e.cause ≠ .exhausted ∧
      e.found ∈ layout.tokens ++ [layout.last] ∧ result = .error (.parse e)
  exposed : ∀ o, p ((Cursor.ofLayout layout).exposed o) = o.outcome (p (.ofLayout layout))

theorem Layout.endsInside {p : Parser α}
    (contained : ∀ {c : Cursor}, Parser.Contained c (c.rest.length + 1) p p) (atEnd : p.AtEnd)
    {source : String} {layout : Layout} (scanned : Layout.ofSource source = .ok layout) :
    layout.EndsInside p (p.run source) := by
  have ended : (Cursor.ofLayout layout).IsEnded := rfl
  refine ⟨?_, contained.exposed ended⟩
  cases run : p (.ofLayout layout) with
  | ok r =>
    obtain ⟨x, c⟩ := r
    obtain ⟨reaches, -⟩ := contained.ok ended run
    obtain ⟨us, tokens, passed⟩ := reaches.tokens
    -- the cursor is at a mark of the end, and no token of the source is one
    have nothing : c.rest = [] := by
      refine List.eq_nil_iff_forall_not_mem.2 fun t mem => ?_
      obtain ⟨first, more, rest⟩ := List.exists_cons_of_ne_nil (List.ne_nil_of_mem mem)
      have inside : first ∈ layout.tokens := by
        rw [show layout.tokens = us ++ c.rest from tokens, rest]
        exact List.mem_append_right us List.mem_cons_self
      refine Layout.lexeme_ne_eof scanned inside ?_
      rw [← atEnd run, Cursor.current, rest]
      rfl
    have all : layout.tokens = us := by
      rw [show layout.tokens = us ++ c.rest from tokens, nothing, List.append_nil]
    have here : c.current = layout.last := by
      rw [Cursor.current, nothing]
      exact reaches.stop
    refine .inl ⟨x, c, rfl, ?_, nothing, here, by simp only [Parser.run, scanned, run]⟩
    rw [passed, all]
    exact List.append_nil _
  | error e =>
    obtain ⟨inside, found⟩ := contained.error ended run
    exact .inr ⟨e, rfl, inside, found, by simp only [Parser.run, scanned, run]⟩

/-- Scanning and parsing end for every source, within its tokens. -/
theorem Parser.stays_inside (source : String) :
    ((∃ e, Layout.ofSource source = .error e ∧ File.parse source = .error (.scan e) ∧
        TypeExpr.parse source = .error (.scan e)) ∨
      ∃ layout, Layout.ofSource source = .ok layout ∧
        layout.EndsInside Parser.file (File.parse source) ∧
        layout.EndsInside Parser.wholeType (TypeExpr.parse source)) ∧
    Parser.ProductionsConsume := by
  refine ⟨?_, Parser.productionsConsume⟩
  cases scanned : Layout.ofSource source with
  | error e =>
    refine .inl ⟨e, rfl, ?_, ?_⟩
    · rw [File.parse, Parser.run, scanned]
    · rw [TypeExpr.parse, Parser.run, scanned]
  | ok layout =>
    refine .inr ⟨layout, rfl, ?_, ?_⟩
    · exact Layout.endsInside Parser.file_contained Parser.file_atEnd scanned
    · exact Layout.endsInside Parser.wholeType_contained Parser.wholeType_atEnd scanned

end Typings
