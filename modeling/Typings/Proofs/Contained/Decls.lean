import Typings.Proofs.Contained.Types
import Typings.Proofs.Joined.Decls

/-!
# Declarations keep to the tokens

Type specifications, declarations and their parts are contained and pass a token
(`Parser.declaration_consumes`). What is passed over without being read, a block or an import group, is
searched for its end among the tokens, and without one the failure is at the token that ends the text.
-/

namespace Typings.Parser

variable {α β : Type}

/-! ## Passing over -/

/-- What is counted is not changed by the token that ends the text. -/
def IgnoresEnd (count : List Token → Option Nat) : Prop :=
  ∀ ts stop, stop.lexeme = .eof → count (ts ++ [stop]) = count ts

/-- A search for the end of a block stays inside of the tokens, or fails at the mark of the end. -/
theorem Contained.passCounted {c : Cursor} {count : List Token → Option Nat}
    (closes : CountsToClose count) (ignores : IgnoresEnd count) {cause : ParseCause}
    (isOpen : cause.isOpen = true) :
    Contained c (c.rest.length + 1) (Parser.passCounted count cause)
      (Parser.passCounted count cause) where
  ok _ {x c'} run := by
    obtain ⟨n, -, rfl⟩ := passCounted_eq_ok run
    exact ⟨.pass c n, Nat.lt_succ_of_le (Cursor.Reaches.pass c n).length_le⟩
  error _ {e} run := by
    rw [Parser.passCounted] at run
    split at run
    · cases run
    · cases run
      refine ⟨?_, List.mem_append_right _ (List.mem_singleton_self _)⟩
      rintro rfl
      cases isOpen
  exposed ended o := by
    have same : count (c.exposed o).rest = count c.rest := ignores c.rest c.stop ended
    rw [Parser.passCounted, Parser.passCounted, same]
    cases counted : count c.rest with
    | some n =>
      obtain ⟨us, t, vs, rest, rfl, -⟩ := closes counted
      have le : us.length + 1 ≤ c.rest.length := by
        rw [rest, List.length_append, List.length_cons]
        omega
      exact congrArg (fun c => Except.ok ((), c)) (Cursor.pass_exposed o le)
    | none =>
      simp [Outside.outcome, ParseError.exposed, isOpen, Cursor.exposed]

/-- The end of a block is found or not, whether a mark of the end stands behind the tokens or not. -/
theorem blockEnd?_concat (depth : Nat) (ts : List Token) {stop : Token} (ended : stop.lexeme = .eof) :
    blockEnd? depth (ts ++ [stop]) = (blockEnd? depth ts).map (· ++ [stop]) := by
  induction ts generalizing depth with
  | nil => simp [blockEnd?, ended]
  | cons t ts ih =>
    rw [List.cons_append, blockEnd?, blockEnd?, ih, ih, ih]
    split
    · rfl
    · split <;> rfl
    · rfl

theorem ignoresEnd_block : IgnoresEnd blockLength? := by
  intro ts stop ended
  rw [blockLength?, blockLength?, blockEnd?_concat 1 ts ended, Option.map_map]
  refine congrArg (Option.map · _) (funext fun behind => ?_)
  simp [Nat.add_sub_add_right]

theorem ignoresEnd_group : IgnoresEnd groupLength? := by
  intro ts stop ended
  rw [groupLength?, groupLength?, List.findIdx?_append]
  have last : [stop].findIdx? (fun t => t.lexeme = .op .rightParen) = none := by simp [ended]
  rw [last]
  simp

/-- A block in braces has its opening brace to pass. -/
theorem passBlock_consumes (n : Nat) : Consumes n passBlock passBlock := by
  intro c _
  rw [passBlock_eq]
  refine .bind (.expect (by simp)) fun _ c₁ _ less => ?_
  exact (Contained.passCounted countsToClose_block ignoresEnd_block rfl).mono less

/-- What may be missing. -/
theorem Contained.optional {c : Cursor} {n : Nat} {look : Cursor → Bool} {p : Parser α} {x : α}
    (same : c.IsEnded → ∀ o, look (c.exposed o) = look c) (yes : look c = true → Contained c n p p)
    (few : c.rest.length < n) :
    Contained c n (Parser.optional look p x) (Parser.optional look p x) :=
  askIf same yes fun _ => pure few

/-- What may be missing, as the lexeme at the cursor shows. -/
theorem Contained.optionalAt {c : Cursor} {w : Lexeme} {p : Parser α} {x : α}
    (h : ∀ n, Consumes n p p) :
    Contained c (c.rest.length + 1) (Parser.optional (fun c => c.current.lexeme = w) p x)
      (Parser.optional (fun c => c.current.lexeme = w) p x) := by
  refine optional (fun _ o => by rw [Cursor.current_exposed]) (fun _ => ?_) (Nat.lt_succ_self _)
  exact (h _ c (Nat.lt_succ_self _)).mono (Nat.le_succ _)

/-! ## Types -/

/-- Type parameters have their brackets to pass. -/
theorem typeParams_consumes (n : Nat) : Consumes n typeParams typeParams := by
  intro c few
  refine .bind (fieldListWith_consumes (type_consumes n) (by decide) (by decide) true c few) ?_
  intro fields c₁ _ less
  split
  · exact .fail rfl (by simp)
  · exact .pure less

/-- A type specification has its name to pass. -/
theorem typeSpec_consumes (doc : Option CommentGroup) (n : Nat) :
    Consumes n (typeSpec doc) (typeSpec doc) := by
  intro c _
  rw [typeSpec_eq]
  refine .bind .ident fun name c₁ _ less => ?_
  have params : Contained c₁ (c₁.rest.length + 1) (optional showsTypeParams typeParams [])
      (optional showsTypeParams typeParams []) := by
    refine .optional (fun ended o => Cursor.showsTypeParams_exposed o ended) (fun _ => ?_)
      (Nat.lt_succ_self _)
    exact (typeParams_consumes _ c₁ (Nat.lt_succ_self _)).mono (Nat.le_succ _)
  refine .bind params fun ps c₂ _ left₂ => ?_
  refine .ask (fun _ o => by rw [Cursor.current_exposed]) ?_
  refine .bind (.advanceIf fun assign => ?_) fun _ c₃ _ left₃ => ?_
  · simp [of_decide_eq_true assign]
  refine .bind (type_consumes _ c₃ (Nat.lt_succ_self _)) fun type c₄ reaches less₄ => ?_
  exact .commentBehind (reaches.started less₄) fun comment c₅ left₅ => .pure (by omega)

theorem groupItem_consumes (n : Nat) : Consumes n groupItem groupItem :=
  fun c few => .docHere fun doc => (typeSpec_consumes doc n).statement c few

/-- A type declaration has its keyword to pass. -/
theorem typeDeclHead_consumes (n : Nat) : Consumes n typeDeclHead typeDeclHead := by
  intro c _
  refine .docHere fun doc => .bind (.expect (by simp)) fun _ c₁ _ less => ?_
  refine .isAt (fun group => ?_) fun _ => ?_
  · refine .advance (by simp [group]) fun less₁ => ?_
    refine .bind (.boundedItems groupItem_consumes) fun specs c₂ _ left₂ => ?_
    exact .bind (.expect (by simp)) fun _ c₃ _ less₃ => .pure (by omega)
  · refine .bind (typeSpec_consumes doc _ c₁ (Nat.lt_succ_self _)) fun spec c₂ _ less₂ => ?_
    exact .pure (by omega)

/-! ## Functions -/

/-- A receiver has its parenthesis to pass. -/
theorem receiver_consumes (n : Nat) : Consumes n receiver receiver := by
  intro c few
  refine .bind (fieldListWith_consumes (type_consumes n) (by decide) (by decide) false c few) ?_
  intro fields c₁ _ less
  split
  · exact .pure less
  · exact .fail rfl (by simp)

theorem someReceiver_consumes (n : Nat) : Consumes n (some <$> receiver) (some <$> receiver) := by
  rw [map_eq_pure_bind]
  exact fun c few => .bind (receiver_consumes n c few) fun recv c₁ _ less => .pure less

/-- A function has its keyword to pass; its body may be left out. -/
theorem funcDeclHead_consumes (n : Nat) : Consumes n funcDeclHead funcDeclHead := by
  intro c few
  have ty := type_consumes n
  refine .docHere fun doc => .bind (.expect (by simp)) fun _ c₁ _ less => ?_
  refine .bind (.optionalAt someReceiver_consumes) fun recv c₂ _ left₂ => ?_
  refine .bind .ident fun name c₃ _ less₃ => ?_
  refine .bind (.optionalAt typeParams_consumes) fun typeParams c₄ _ left₄ => ?_
  refine .bind (paramsWith_consumes ty c₄ (by omega)) fun params c₅ _ less₅ => ?_
  refine .bind (resultsWith_contained ty (by omega)) fun results c₆ _ left₆ => ?_
  exact .bind (.optionalAt passBlock_consumes) fun _ c₇ _ left₇ => .pure (by omega)

/-! ## Imports -/

theorem importHead_consumes (n : Nat) : Consumes n importHead importHead := by
  intro c _
  refine .bind (.expect (by simp)) fun _ c₁ _ less => ?_
  refine .isAt (fun group => ?_) fun _ => ?_
  · refine .advance (by simp [group]) fun less₁ => ?_
    rw [passImportGroup_eq]
    exact (Contained.passCounted countsToClose_group ignoresEnd_group rfl).mono (by omega)
  · refine .current ?_
    refine .bind (.advanceIf fun shows => ?_) fun _ c₂ _ left₂ => .current ?_
    · exact Lexeme.ne_eof_of_test (fun w => w.isIdent || w = .op .dot) shows rfl
    split
    · next path =>
      have some := Lexeme.ne_eof_of_test Lexeme.isString path rfl
      exact .advance (f := fun _ => pure ()) (g := fun _ => pure ()) some fun less₂ =>
        .pure (by omega)
    · exact .fail rfl (by simp)

/-! ## Declarations -/

/-- A statement passes what its head does, and the semicolons behind it. -/
theorem statementOf_consumes {n : Nat} {head : Parser α} (h : Consumes n head head) (f : α → β) :
    Consumes n (statementOf head f) (statementOf head f) := by
  intro c few
  refine .bind (h c few) fun x c₁ _ less => ?_
  exact .bind .endStatement fun _ c₂ _ left => .pure (by omega)

theorem typeDecl_eq : typeDecl = statementOf typeDeclHead id := by
  simp only [typeDecl, statementOf, typeDeclHead, groupItem, typeStatement, bind_assoc, ite_bind,
    pure_bind, id]

theorem funcDecl_eq : funcDecl = statementOf funcDeclHead id := by
  simp only [funcDecl, statementOf, funcDeclHead, optional, isAt, bind_assoc, ite_bind, pure_bind, id]

theorem typeDecl_consumes (n : Nat) : Consumes n typeDecl typeDecl :=
  typeDecl_eq ▸ statementOf_consumes (typeDeclHead_consumes n) id

theorem funcDecl_consumes (n : Nat) : Consumes n funcDecl funcDecl :=
  funcDecl_eq ▸ statementOf_consumes (funcDeclHead_consumes n) id

/-- A declaration has a keyword to pass; at any other lexeme it fails there. -/
theorem declaration_consumes (n : Nat) : Consumes n declaration declaration := by
  intro c few
  rw [declaration_eq]
  refine .current ?_
  split
  · exact statementOf_consumes (importHead_consumes n) _ c few
  · exact statementOf_consumes (typeDeclHead_consumes n) _ c few
  · exact statementOf_consumes (funcDeclHead_consumes n) _ c few
  · exact .fail rfl (by simp)

/-! ## Files -/

/-- A package clause may be left out, so that nothing is passed. -/
theorem packageClause_contained {c : Cursor} :
    Contained c (c.rest.length + 1) packageClause packageClause := by
  refine .isAt (fun word => ?_) fun _ => .pure (Nat.lt_succ_self _)
  refine .advance (by simp [word]) fun less => ?_
  refine .bind .ident fun name c₁ _ less₁ => ?_
  exact .bind .endStatement fun _ c₂ _ left₂ => .pure (by omega)

/-- Files are read within their tokens: each declaration passes one, so that there are rounds enough. -/
theorem file_contained {c : Cursor} : Contained c (c.rest.length + 1) file file := by
  refine .bind .passSemis fun _ c₁ _ left₁ => ?_
  refine .bind packageClause_contained fun package c₂ _ left₂ => ?_
  exact .bind (.boundedItems declaration_consumes) fun decls c₃ _ left₃ => .pure (by omega)

end Typings.Parser
