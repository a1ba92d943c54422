import Typings.Proofs.Bodies.Types
import Typings.Proofs.Contained.Decls

/-!
# Functions and their bodies

A function is a signature, a body that may be missing, and the end of its statement
(`Parser.funcDecl_eq_signature`). The signature is kept, whatever follows it; and a body whose braces
match is passed as a whole (`Parser.blockEnd?_body`). So the function with a body is the one without.
-/

namespace Typings.Parser

variable {α : Type}

/-! ## Bodies -/

/-- The number of braces that are open behind some tokens, if so many are open before them and none is
closed that was not opened. -/
def braceDepth? (depth : Nat) : List Token → Option Nat
  | [] => some depth
  | t :: ts =>
    match t.lexeme with
    | .op .leftBrace => braceDepth? (depth + 1) ts
    | .op .rightBrace => if depth = 0 then none else braceDepth? (depth - 1) ts
    | _ => braceDepth? depth ts

theorem braceDepth?_cons_of_ne {depth : Nat} {t : Token} (ts : List Token)
    (opens : t.lexeme ≠ .op .leftBrace) (closes : t.lexeme ≠ .op .rightBrace) :
    braceDepth? depth (t :: ts) = braceDepth? depth ts := by
  rw [braceDepth?]
  split
  · contradiction
  · contradiction
  · rfl

theorem blockEnd?_cons_of_ne {depth : Nat} {t : Token} (ts : List Token)
    (opens : t.lexeme ≠ .op .leftBrace) (closes : t.lexeme ≠ .op .rightBrace) :
    blockEnd? depth (t :: ts) = blockEnd? depth ts := by
  rw [blockEnd?]
  split
  · contradiction
  · contradiction
  · rfl

/-- The search for the end of a block goes on behind tokens that close no brace around them. -/
theorem blockEnd?_append {depth depth' : Nat} {body : List Token}
    (inside : braceDepth? depth body = some depth') (behind : List Token) :
    blockEnd? (depth + 1) (body ++ behind) = blockEnd? (depth' + 1) behind := by
  induction body generalizing depth with
  | nil =>
    cases inside
    rfl
  | cons t ts ih =>
    rw [List.cons_append]
    by_cases opens : t.lexeme = .op .leftBrace
    · rw [braceDepth?, opens] at inside
      rw [blockEnd?, opens]
      exact ih inside
    · by_cases closes : t.lexeme = .op .rightBrace
      · rw [braceDepth?, closes] at inside
        rw [blockEnd?, closes]
        by_cases outermost : depth = 0
        · simp [outermost] at inside
        · have again := ih (by simpa [outermost] using inside)
          rw [Nat.sub_add_cancel (Nat.pos_of_ne_zero outermost)] at again
          simpa [outermost] using again
      · rw [braceDepth?_cons_of_ne ts opens closes] at inside
        rw [blockEnd?_cons_of_ne _ opens closes]
        exact ih inside

/-- A body whose braces match ends with the brace that closes it. -/
theorem blockEnd?_body {body : List Token} (balanced : braceDepth? 0 body = some 0) {closing : Token}
    (closes : closing.lexeme = .op .rightBrace) (behind : List Token) :
    blockEnd? 1 (body ++ closing :: behind) = some behind := by
  rw [blockEnd?_append balanced, blockEnd?, closes]
  rfl

theorem passBlock_body {body : List Token} (balanced : braceDepth? 0 body = some 0)
    {opening closing : Token} (opens : opening.lexeme = .op .leftBrace)
    (closes : closing.lexeme = .op .rightBrace) {behind : List Token} {c : Cursor}
    (rest : c.rest = opening :: (body ++ closing :: behind)) :
    ∃ c', passBlock c = .ok ((), c') ∧ c'.rest = behind ∧ c'.stop = c.stop := by
  have here : c.current.lexeme = .op .leftBrace := by rw [Cursor.current_of_rest rest, opens]
  have ahead : c.advance.rest = (body ++ [closing]) ++ behind := by
    rw [Cursor.advance, Cursor.pass, rest, List.append_assoc]
    rfl
  have length : blockLength? c.advance.rest = some (body ++ [closing]).length := by
    rw [blockLength?, ahead, List.append_assoc, List.singleton_append, blockEnd?_body balanced closes]
    simp
    omega
  refine ⟨c.advance.pass (body ++ [closing]).length, ?_, ?_, rfl⟩
  · rw [passBlock_eq, expect, bind_assoc, isAt_bind, if_pos (decide_eq_true here), advance_bind,
      passCounted, length]
  · rw [Cursor.pass, ahead]
    exact List.drop_left

/-! ## Signatures -/

/-- A function declaration before its body. -/
def funcSignature : Parser FuncDecl := do
  let doc ← docHere
  let _ ← expect (.keyword .funcKw)
  let recv ← optional (fun c => c.current.lexeme = .op .leftParen) (some <$> receiver) none
  let name ← ident
  let typeParams ← optional (fun c => c.current.lexeme = .op .leftBracket) typeParams []
  let params ← paramsWith type
  let results ← resultsWith type
  pure { name := name, params := params, results := results, typeParams := typeParams,
         recv := recv, doc := doc }

theorem funcDecl_eq_signature : funcDecl = (do
    let decl ← funcSignature
    optional (fun c => c.current.lexeme = .op .leftBrace) passBlock ()
    endStatement
    pure decl) := by
  simp only [funcDecl_eq, statementOf, funcDeclHead, funcSignature, bind_assoc, pure_bind, id]

theorem funcSignature_ends : funcSignature.Ends := by
  apply Ends.ask
  intro doc
  apply Ends.expect
  intro _
  apply Ends.after (Framed.optional (current_lexeme_within _) someReceiver_framed none).moves
  intro recv
  apply Ends.after Framed.ident.moves
  intro name
  apply Ends.after (Framed.optional (current_lexeme_within _) typeParams_framed []).moves
  intro typeParams
  apply (paramsWith_ends .type type_brackets).andThen
  intro params
  exact (resultsWith_mayEnd .type type_brackets type_ends).bind fun results => .pure _

namespace Kept

variable {n : Nat}

/-- What may stand at the cursor, if a lexeme shows it with which no sequel begins. -/
theorem optional {w : Lexeme} (other : w.followsSignature = false) {p : Parser α} (h : Kept n p p)
    (x : α) : Kept n (Parser.optional (fun c => c.current.lexeme = w) p x)
      (Parser.optional (fun c => c.current.lexeme = w) p x) := by
  apply isAt other
  intro shows
  cases shows with
  | true => exact h
  | false => exact pure x

theorem typeParams : Kept n Parser.typeParams Parser.typeParams := by
  apply bind (fieldListWith type type_brackets _ _ true)
  intro fields
  split
  · exact fail _ _
  · exact pure _

theorem receiver : Kept n Parser.receiver Parser.receiver := by
  apply bind (fieldListWith type type_brackets _ _ false)
  intro fields
  split
  · exact pure _
  · exact fail _ _

theorem funcSignature : Kept n Parser.funcSignature Parser.funcSignature := by
  apply docHere
  intro doc
  apply expect
  intro _
  have someReceiver : Kept n (some <$> Parser.receiver) (some <$> Parser.receiver) := by
    rw [map_eq_pure_bind]
    exact bind receiver fun _ => pure _
  apply bind (optional rfl someReceiver none)
  intro recv
  apply ident
  intro name
  apply bind (optional rfl typeParams [])
  intro typeParams
  apply bind (paramsWith type type_brackets)
  intro params
  exact bind (resultsWith type type_brackets) fun results => pure _

end Kept

/-! ## Declarations -/

variable {tokens : List Token} {semi stop : Token} {decl : FuncDecl}

theorem ofTokens_followedBy (tokens : List Token) (semi stop : Token) (s : Sequel) :
    (Cursor.ofTokens (tokens ++ [semi]) stop []).followedBy s =
      .ofTokens (tokens ++ s.next :: s.behind) s.stop [] := by
  rw [Cursor.followedBy, Cursor.ofTokens, List.dropLast_concat]
  rfl

/-- A function without a body that is all of its source: its signature ends directly before the
semicolon. -/
theorem exists_funcSignature {c c' : Cursor} (ended : c.IsEnded) (rest : c.rest = tokens ++ [semi])
    (last : semi.lexeme = .op .semicolon) (run : funcDecl c = .ok (decl, c')) (all : c'.rest = [])
    (bodiless : ∀ d c₁, funcSignature c = .ok (d, c₁) → c₁.current.lexeme ≠ .op .leftBrace) :
    ∃ c₁, funcSignature c = .ok (decl, c₁) ∧ c₁.rest = [semi] := by
  rw [funcDecl_eq_signature] at run
  obtain ⟨d, c₁, signature, run⟩ := bind_eq_ok.1 run
  rw [bind_of_ok (optional_of_false (decide_eq_false (bodiless d c₁ signature)) _ _)] at run
  obtain ⟨_, c₂, statement, run⟩ := bind_eq_ok.1 run
  obtain ⟨rfl, rfl⟩ := pure_eq_ok.1 run
  refine ⟨c₁, signature, ?_⟩
  obtain ⟨ended₁, us, t, passed, ends⟩ := funcSignature_ends c c₁ d ended signature
  rw [rest] at passed
  rcases List.eq_nil_or_concat c₁.rest with nothing | ⟨vs, v, more⟩
  · -- a semicolon ends no statement by itself, so the signature does not pass it
    rw [nothing] at passed
    obtain ⟨-, same⟩ := List.append_inj' passed rfl
    rw [← List.singleton_inj.1 same, last] at ends
    cases ends
  · rw [List.concat_eq_append] at more
    rw [more, ← List.cons_append, ← List.append_assoc] at passed
    obtain ⟨-, same⟩ := List.append_inj' passed rfl
    obtain rfl := List.singleton_inj.1 same
    rcases endStatement_cases statement with ⟨-, rfl⟩ | rfl
    · cases vs with
      | nil => exact more
      | cons w ws =>
        rw [Cursor.advance, Cursor.pass, more] at all
        exact absurd all (List.append_ne_nil_of_right_ne_nil ws (List.cons_ne_nil _ _))
    · rw [more] at all
      exact absurd all (List.append_ne_nil_of_right_ne_nil vs (List.cons_ne_nil _ _))

theorem endStatement_semicolon {c : Cursor} {next : Token} {after : List Token}
    (rest : c.rest = next :: after) (semicolon : next.lexeme = .op .semicolon) :
    endStatement c = .ok ((), c.advance) ∧ c.advance.rest = after := by
  constructor
  · rw [endStatement, current_bind, Cursor.current_of_rest rest, semicolon]
    rfl
  · rw [Cursor.advance, Cursor.pass, rest]
    rfl

/-- A signature before a semicolon is a function. -/
theorem funcDecl_of_semicolon {c c₁ : Cursor} (signature : funcSignature c = .ok (decl, c₁))
    {next : Token} {after : List Token} (rest : c₁.rest = next :: after)
    (semicolon : next.lexeme = .op .semicolon) :
    ∃ c', funcDecl c = .ok (decl, c') ∧ c'.rest = after ∧ c'.stop = c₁.stop := by
  obtain ⟨ends, left⟩ := endStatement_semicolon rest semicolon
  have other : c₁.current.lexeme ≠ .op .leftBrace := by
    rw [Cursor.current_of_rest rest, semicolon]
    decide
  refine ⟨c₁.advance, ?_, left, rfl⟩
  rw [funcDecl_eq_signature, bind_of_ok signature,
    bind_of_ok (optional_of_false (decide_eq_false other) _ _), bind_of_ok ends]
  rfl

/-- A signature before a body and a semicolon is a function. -/
theorem funcDecl_of_body {c c₁ : Cursor} (signature : funcSignature c = .ok (decl, c₁))
    {opening closing next : Token} {body after : List Token}
    (rest : c₁.rest = opening :: (body ++ closing :: next :: after))
    (opens : opening.lexeme = .op .leftBrace) (closes : closing.lexeme = .op .rightBrace)
    (balanced : braceDepth? 0 body = some 0) (semicolon : next.lexeme = .op .semicolon) :
    ∃ c', funcDecl c = .ok (decl, c') ∧ c'.rest = after ∧ c'.stop = c₁.stop := by
  obtain ⟨c₂, passed, rest₂, stop₂⟩ := passBlock_body balanced opens closes rest
  obtain ⟨ends, left⟩ := endStatement_semicolon rest₂ semicolon
  have shown : c₁.current.lexeme = .op .leftBrace := by rw [Cursor.current_of_rest rest, opens]
  refine ⟨c₂.advance, ?_, left, stop₂⟩
  rw [funcDecl_eq_signature, bind_of_ok signature,
    bind_of_ok ((optional_of_true (decide_eq_true shown) _ _).trans passed), bind_of_ok ends]
  rfl

/-- A body whose braces match does not matter: with it, the function is the one that stands before a
semicolon, and what follows the semicolon is left. -/
theorem funcDecl_body {c : Cursor} {opening closing next stop' : Token} {body after : List Token}
    (ended : stop.lexeme = .eof) (last : semi.lexeme = .op .semicolon)
    (run : funcDecl (.ofTokens (tokens ++ [semi]) stop []) = .ok (decl, c)) (all : c.rest = [])
    (bodiless : ∀ d c₁, funcSignature (.ofTokens (tokens ++ [semi]) stop []) = .ok (d, c₁) →
      c₁.current.lexeme ≠ .op .leftBrace)
    (opens : opening.lexeme = .op .leftBrace) (closes : closing.lexeme = .op .rightBrace)
    (balanced : braceDepth? 0 body = some 0) (semicolon : next.lexeme = .op .semicolon) :
    ∃ c₁ c₂,
      funcDecl (.ofTokens (tokens ++ next :: after) stop' []) = .ok (decl, c₁) ∧
      funcDecl (.ofTokens (tokens ++ opening :: (body ++ closing :: next :: after)) stop' []) =
        .ok (decl, c₂) ∧
      c₁.rest = after ∧ c₂.rest = after ∧ c₁.stop = stop' ∧ c₂.stop = stop' := by
  have start : (Cursor.ofTokens (tokens ++ [semi]) stop []).IsEnded := ended
  obtain ⟨c₀, signature, rest⟩ := exists_funcSignature start rfl last run all bodiless
  have before : c₀.Before 0 := ⟨[], semi, rest, last, Nat.le_refl 0⟩
  have kept : ∀ s : Sequel, ∃ c₁,
      funcSignature (.ofTokens (tokens ++ s.next :: s.behind) s.stop []) = .ok (decl, c₁) ∧
      c₁.rest = s.next :: s.behind ∧ c₁.stop = s.stop := by
    intro s
    rw [← ofTokens_followedBy tokens semi stop]
    refine ⟨_, Kept.funcSignature.keep signature ⟨start, rfl, rfl⟩ before, ?_, rfl⟩
    rw [Cursor.followedBy, rest]
    rfl
  obtain ⟨c₁, short, rest₁, stop₁⟩ := kept ⟨next, after, stop', by rw [semicolon]; rfl⟩
  obtain ⟨c₂, long, rest₂, stop₂⟩ :=
    kept ⟨opening, body ++ closing :: next :: after, stop', by rw [opens]; rfl⟩
  obtain ⟨c₃, run₁, left₁, end₁⟩ := funcDecl_of_semicolon short rest₁ semicolon
  obtain ⟨c₄, run₂, left₂, end₂⟩ := funcDecl_of_body long rest₂ opens closes balanced semicolon
  exact ⟨c₃, c₄, run₁, run₂, left₁, left₂, end₁.trans stop₁, end₂.trans stop₂⟩

/-- Strings and brackets in the body of `func f(xs [4]int) T` are passed over. -/
theorem funcDecl_body_brackets :
    let placed : Lexeme → Token := fun w => ⟨w, ⟨1, 1⟩, false⟩
    let tokens := [.keyword .funcKw, .ident "f", .op .leftParen, .ident "xs", .op .leftBracket,
      .literal .int "4", .op .rightBracket, .ident "int", .op .rightParen, .ident "T"].map placed
    let body := [.op .rightBracket, .op .leftBrace, .literal .string "\"\x7d\"", .op .rightBrace,
      .keyword .typeKw, .op .leftParen].map placed
    let decl : FuncDecl :=
      { name := "f"
        params := [{ names := ["xs"], type := .array (.name "int") (some (.literal .int "4")) }]
        results := [{ names := [], type := .name "T" }]
        typeParams := []
        recv := none
        doc := none }
    ∃ c₁ c₂,
      funcDecl (.ofTokens (tokens ++ placed (.op .semicolon) :: tokens) (placed .eof) []) =
        .ok (decl, c₁) ∧
      funcDecl (.ofTokens (tokens ++ placed (.op .leftBrace) ::
        (body ++ placed (.op .rightBrace) :: placed (.op .semicolon) :: tokens)) (placed .eof) []) =
        .ok (decl, c₂) ∧
      c₁.rest = tokens ∧ c₂.rest = tokens ∧ c₁.stop = placed .eof ∧ c₂.stop = placed .eof := by
  intro placed tokens body decl
  have bodiless : ∀ d c₁,
      funcSignature (.ofTokens (tokens ++ [placed (.op .semicolon)]) (placed .eof) []) = .ok (d, c₁) →
        c₁.current.lexeme ≠ .op .leftBrace := by
    rintro d c₁ ⟨⟩
    decide
  exact funcDecl_body rfl rfl rfl rfl bodiless rfl rfl rfl rfl

end Typings.Parser
