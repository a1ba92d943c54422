import Mathlib.Data.List.TakeWhile
import Typings.Proofs.Spelling.Completeness
import Typings.Proofs.Token.Spaced

/-!
# Parsing undoes spelling

A type that is written by its spelling, with single blanks between the lexemes, is parsed to itself
without the comments in it (`TypeExpr.parse_spaced`).
-/

namespace Typings

open Typings.Parser

theorem EndsType.of_semis {semis : List Lexeme} (h : ∀ w ∈ semis, w = .op .semicolon) :
    EndsType semis ∧ semis.headD .eof ≠ .op .bar := by
  cases semis with
  | nil => exact ⟨⟨rfl, nofun⟩, nofun⟩
  | cons w ws =>
    rw [h w (List.mem_cons_self ..)]
    exact ⟨⟨rfl, nofun⟩, nofun⟩

theorem passSemis_reads {semis : List Lexeme} (h : ∀ w ∈ semis, w = .op .semicolon) :
    passSemis.Reads semis () [] := by
  intro c clear ahead
  have every : ∀ t ∈ c.rest, decide (t.lexeme = .op .semicolon) = true := by
    intro t mem
    refine decide_eq_true (h t.lexeme ?_)
    rw [← ahead]
    exact List.mem_map_of_mem mem
  have all : (c.rest.takeWhile fun t => t.lexeme = .op .semicolon) = c.rest :=
    List.takeWhile_eq_self_iff.2 every
  refine ⟨c.passSemis, rfl, clear.pass _, ?_⟩
  rw [Cursor.passSemis, all, Cursor.ahead_pass, Cursor.ahead, List.drop_eq_nil_of_le (by simp)]

theorem expectEnd_reads {semis : List Lexeme} (h : ∀ w ∈ semis, w = .op .semicolon) :
    expectEnd.Reads semis () [] :=
  .bind (passSemis_reads h) (.isAt (decide_eq_true rfl) (.pure _ _))

/-- Parsing what a type is spelled with gives the type back, without comments. -/
theorem TypeExpr.parse_spaced {x : TypeExpr} {ws : List Lexeme}
    (h : Spells (.expr .constraint x) ws) (words : ∀ w ∈ ws, w.IsWord) :
    TypeExpr.parse (spaced ws) = .ok x.bare := by
  obtain ⟨layout, semis, scanned, comments, tokens, isSemi⟩ := Layout.ofSource_spaced words
  obtain ⟨ends, bar⟩ := EndsType.of_semis isSemi
  have reads : (do
      let type ← Parser.constraint
      expectEnd
      Pure.pure type : Parser TypeExpr).Reads (ws ++ semis) x.bare [] :=
    .bind (constraintWith_reads h.isRead (.type _) ends bar) <|
      .bind (expectEnd_reads isSemi) (.pure _ _)
  have clear : (Cursor.ofLayout layout).IsClear := by
    refine ⟨rfl, ?_, ?_⟩
    · rw [Cursor.ofLayout, Cursor.ofTokens, comments]
      rfl
    · rw [Cursor.ofLayout, Cursor.ofTokens, comments]
      rfl
  obtain ⟨c, run, _⟩ := reads (Cursor.ofLayout layout) clear tokens
  unfold TypeExpr.parse Parser.run
  rw [scanned]
  dsimp only
  rw [run]

/-- A function with a variadic parameter, whose type has an operator in its length and a body in it. -/
theorem TypeExpr.parse_spaced_func :
    TypeExpr.parse
        "func ( n int , xs ... [ n * 2 ] struct \x7b A , B * T ; \x7d ) map [ int ] T" =
      .ok (.func
        [{ names := ["n"], type := .name "int" },
         { names := ["xs"],
           type := .variadic <|
             .array (.struct [{ names := ["A", "B"], type := .pointer (.name "T") }])
               (some (.binary (.name "n") "*" (.literal .int "2"))) }]
        [{ names := [], type := .map (.name "int") (.name "T") }] []) := by
  let array : TypeExpr := .array (.struct [{ names := ["A", "B"], type := .pointer (.name "T") }])
    (some (.binary (.name "n") "*" (.literal .int "2")))
  have spellsName : ∀ {n}, Spells (.expr .type (.name n)) [.ident n] := .typeName .name
  have spellsArray : Spells (.expr .type array)
      [.op .leftBracket, .ident "n", .op .star, .literal .int "2", .op .rightBracket,
        .keyword .structKw, .op .leftBrace, .ident "A", .op .comma, .ident "B", .op .star, .ident "T",
        .op .semicolon, .op .rightBrace] :=
    .array (@Spells.arithmetic .star _ _ _ _ rfl (.lengthOperand (.operandName .name)) .literal)
      (.struct (.moreFields (.pointer spellsName) .noFields))
  have last : Spells (.entries true [{ names := ["xs"], type := .variadic array }]) _ :=
    .lastEntry rfl (.variadic spellsArray)
  have entries : Spells (.entries true [{ names := ["n"], type := .name "int" }, _]) _ :=
    .moreEntries rfl (.entryType spellsName) last
  have spells : Spells (.expr .constraint _) _ :=
    .constraintTerm <| .termType <| .func (.someParams entries) <|
      .bareResult (by simp) (.map (@spellsName "int") (@spellsName "T"))
  refine TypeExpr.parse_spaced spells ?_
  have n : (Lexeme.ident "n").IsWord := ⟨_, _, rfl, rfl, rfl, rfl⟩
  have int : (Lexeme.ident "int").IsWord := ⟨_, _, rfl, rfl, rfl, rfl⟩
  have xs : (Lexeme.ident "xs").IsWord := ⟨_, _, rfl, rfl, rfl, rfl⟩
  have two : (Lexeme.literal .int "2").IsWord := ⟨_, _, rfl, rfl⟩
  have A : (Lexeme.ident "A").IsWord := ⟨_, _, rfl, rfl, rfl, rfl⟩
  have B : (Lexeme.ident "B").IsWord := ⟨_, _, rfl, rfl, rfl, rfl⟩
  have T : (Lexeme.ident "T").IsWord := ⟨_, _, rfl, rfl, rfl, rfl⟩
  have word : ∀ op, (Lexeme.op op).IsWord := fun _ => trivial
  have keyword : ∀ word, (Lexeme.keyword word).IsWord := fun _ => trivial
  simp [spellNames, n, int, xs, two, A, B, T, word, keyword]

end Typings
