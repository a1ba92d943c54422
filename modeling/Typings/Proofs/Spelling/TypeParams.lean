import Typings.Decl.Parser
import Typings.Proofs.Spelling.Completeness
import Typings.Proofs.Token.Scanned

/-!
# Type parameters are read back

A list of type parameters is spelled as groups of names, each with a constraint. It is read back
exactly if no constraint of several terms begins with an array type (`typeParams_spelled_iff`). Behind
a name and a bracket only a type is read, so that the bar behind that type is refused; everywhere else
the whole constraint is.
-/

namespace Typings

open Typings.Parser

/-! ## First terms -/

/-- The first of the terms with bars between them. -/
def TypeExpr.firstTerm : TypeExpr → TypeExpr
  | .binary x _ _ => x.firstTerm
  | x => x

/-- An array type. -/
def TypeExpr.isArray : TypeExpr → Bool
  | .array .. => true
  | _ => false

/-- Several terms with bars between them, the first of which is an array type. -/
def TypeExpr.isArrayUnion : TypeExpr → Bool
  | .binary x _ _ => x.firstTerm.isArray
  | _ => false

/-- A type is no union, and its only term is itself. -/
theorem Spells.isArrayUnion_type {x : TypeExpr} {ws : List Lexeme} (h : Spells (.expr .type x) ws) :
    x.firstTerm = x ∧ x.isArrayUnion = false := by
  cases h with
  | typeName base => cases base <;> exact ⟨rfl, rfl⟩
  | _ => exact ⟨rfl, rfl⟩

theorem Spells.isArrayUnion_term {x : TypeExpr} {ws : List Lexeme} (h : Spells (.expr .term x) ws) :
    x.firstTerm = x ∧ x.isArrayUnion = false := by
  cases h with
  | termType h => exact h.isArrayUnion_type
  | tilde => exact ⟨rfl, rfl⟩

/-- The array types are the terms that begin with a bracket. -/
theorem Spells.isArray_iff {x : TypeExpr} {ws : List Lexeme} (h : Spells (.expr .term x) ws) :
    x.isArray = true ↔ ws.headD .eof = .op .leftBracket := by
  cases h with
  | tilde => exact ⟨nofun, nofun⟩
  | termType h =>
    cases h with
    | slice | counted | array => exact ⟨fun _ => rfl, fun _ => rfl⟩
    | typeName base => cases base <;> exact ⟨nofun, nofun⟩
    | generic base => cases base <;> exact ⟨nofun, nofun⟩
    | _ => exact ⟨nofun, nofun⟩

theorem Spells.type_of_isArray {x : TypeExpr} {ws : List Lexeme} (h : Spells (.expr .term x) ws)
    (array : x.isArray = true) : Spells (.expr .type x) ws := by
  cases h with
  | termType h => exact h
  | tilde => cases array

/-- A constraint begins with its first term, and behind that with a bar if it has more terms. -/
theorem Spells.exists_firstTerm {x : TypeExpr} {ws : List Lexeme}
    (h : Spells (.expr .constraint x) ws) :
    ∃ us vs, ws = us ++ vs ∧ Spells (.expr .term x.firstTerm) us ∧
      (vs = [] ∧ x.firstTerm = x ∨
        (∃ vs', vs = .op .bar :: vs') ∧ x.isArrayUnion = x.firstTerm.isArray) := by
  generalize hp : Phrase.expr .constraint x = p at h
  induction h generalizing x <;> cases hp
  case constraintTerm h _ =>
    have only := h.isArrayUnion_term.1
    exact ⟨_, [], (List.append_nil _).symm, only.symm ▸ h, .inl ⟨rfl, only⟩⟩
  case union ih _ =>
    obtain ⟨us, vs, rfl, first, more⟩ := ih rfl
    refine ⟨us, vs ++ .op .bar :: _, List.append_assoc .., first, .inr ⟨?_, rfl⟩⟩
    obtain ⟨rfl, _⟩ | ⟨⟨vs', rfl⟩, _⟩ := more
    · exact ⟨_, rfl⟩
    · exact ⟨_, rfl⟩

/-! ## The last name of a group -/

section Groups

variable {x : TypeExpr} {name : String} {us ws vs rest : List Lexeme} {es : List Entry}

/-- A name and a constraint that is not cut short. -/
theorem nameAndType_reads_constraint (name : String) (h : Spells (.expr .constraint x) ws)
    (whole : x.isArrayUnion = false) (ends : EndsType rest) (bar : rest.headD .eof ≠ .op .bar) :
    (nameAndType type (.op .rightBracket) true).Reads (.ident name :: ws ++ rest)
      (some name, x.bare) rest := by
  have reads : (entryType type true).Reads (ws ++ rest) x.bare rest :=
    constraintWith_reads h.isRead (.type _) ends bar
  by_cases bracket : ws.headD .eof = .op .leftBracket
  · obtain ⟨us, vs, rfl, first, more⟩ := h.exists_firstTerm
    obtain ⟨w, us, rfl, _⟩ := first.opens.exists_cons rfl
    have array := first.isArray_iff.2 bracket
    obtain ⟨rfl, only⟩ | ⟨_, same⟩ := more
    · have spells := first.type_of_isArray array
      rw [only] at spells
      rw [List.append_nil]
      exact nameAndType_reads_array name (.type _) spells spells.isRead bracket ends
    · rw [whole, array] at same
      cases same
  · obtain ⟨w, us, rfl, begins⟩ := h.opens.exists_cons rfl
    exact nameAndType_reads_other name (.type 1) (Nat.le_refl 1) begins bracket rfl reads

/-- A name and a constraint that begins with an array type: what follows that type is left. -/
theorem nameAndType_stops (h : Spells (.expr .constraint x) ws) (cut : x.isArrayUnion = true)
    (rest : List Lexeme) :
    ∃ y vs, ∀ name, (nameAndType type (.op .rightBracket) true).Reads (.ident name :: (ws ++ rest))
      (some name, y) (.op .bar :: vs) := by
  obtain ⟨us, vs, rfl, first, more⟩ := h.exists_firstTerm
  obtain ⟨_, only⟩ | ⟨⟨vs, rfl⟩, same⟩ := more
  · rw [only] at first
    rw [first.isArrayUnion_term.2] at cut
    cases cut
  · rw [cut] at same
    have spells := first.type_of_isArray same.symm
    have bracket := first.isArray_iff.1 same.symm
    have ends : EndsType (.op .bar :: vs ++ rest) := ⟨rfl, nofun⟩
    refine ⟨x.firstTerm.bare, vs ++ rest, fun name => ?_⟩
    rw [List.append_assoc]
    exact nameAndType_reads_array name (.type _) spells spells.isRead bracket ends

/-! ## Groups -/

/-- The entries of a list of type parameters. -/
abbrev Parser.typeParamEntries : Nat → Parser (List Entry) :=
  entriesUntil (.op .rightBracket) (nameAndType type (.op .rightBracket) true)

/-- A group, given what is read from its last name on. -/
theorem entriesUntil_reads_group {names : List String} {m : Nat} (some : names ≠ [])
    (long : (spellNames names ++ ws).length < m)
    (last : ∀ name n, ws.length < n →
      (typeParamEntries (n + 1)).Reads (.ident name :: (ws ++ rest))
        (⟨Option.some name, x, none⟩ :: es) vs) :
    (typeParamEntries m).Reads (spellNames names ++ ws ++ rest)
      (entriesOf { names := names, type := x } ++ es) vs := by
  obtain rfl | ⟨init, name, rfl⟩ := List.eq_nil_or_concat names
  · exact absurd rfl some
  · rw [List.concat_eq_append] at long ⊢
    have count : (spellNames (init ++ [name])).length = 2 * (init.length + 1) - 1 := by
      rw [spellNames, List.length_intersperse, List.length_map, List.length_append,
        List.length_singleton]
    rw [List.length_append, count] at long
    obtain ⟨n, rfl⟩ : ∃ n, m = init.length + (n + 1) := ⟨m - init.length - 1, by omega⟩
    have all := entriesUntil_reads_names (.type 1) (Nat.le_refl 1) rfl init (last name n (by omega))
    have entries : entriesOf { names := init ++ [name], type := x } ++ es =
        (init.map fun n => ⟨none, .name n, none⟩) ++ ⟨Option.some name, x, none⟩ :: es := by
      simp [entriesOf]
    rw [entries, spellNames_concat]
    simpa only [List.append_assoc, List.cons_append, List.nil_append] using all

/-- A group with others behind it. -/
theorem entriesUntil_reads_more {names : List String} (some : names ≠ [])
    (h : Spells (.expr .constraint x) ws) (whole : x.isArrayUnion = false)
    (others : ∀ n, us.length < n → (typeParamEntries (n + 1)).Reads (.ident name :: us ++ rest) es vs)
    {m : Nat} (long : (spellNames names ++ (ws ++ .op .comma :: .ident name :: us)).length < m) :
    (typeParamEntries m).Reads (spellNames names ++ (ws ++ .op .comma :: .ident name :: us) ++ rest)
      (entriesOf { names := names, type := x.bare } ++ es) vs := by
  refine entriesUntil_reads_group some long fun last n lt => ?_
  simp only [List.length_append, List.length_cons] at lt
  obtain ⟨n, rfl⟩ : ∃ k, n = k + 1 := ⟨n - 1, by omega⟩
  have comma : EndsType (.op .comma :: (.ident name :: us ++ rest)) := ⟨rfl, nofun⟩
  have first := nameAndType_reads_constraint last h whole comma nofun
  have next : (.ident name :: us ++ rest).headD .eof ≠ .op .semicolon := nofun
  rw [List.append_assoc, List.cons_append]
  exact entriesUntil_reads_cons nofun next first (others n (by omega))

/-- The last group. -/
theorem entriesUntil_reads_last {names : List String} (some : names ≠ [])
    (h : Spells (.expr .constraint x) ws) (whole : x.isArrayUnion = false)
    {m : Nat} (long : (spellNames names ++ ws).length < m) :
    (typeParamEntries m).Reads (spellNames names ++ ws ++ .op .rightBracket :: rest)
      (entriesOf { names := names, type := x.bare }) (.op .rightBracket :: rest) := by
  rw [← List.append_nil (entriesOf _)]
  refine entriesUntil_reads_group some long fun name n _ => ?_
  have closing : EndsType (.op .rightBracket :: rest) := ⟨rfl, nofun⟩
  have first := nameAndType_reads_constraint name h whole closing nofun
  exact entriesUntil_reads_one nofun nofun nofun first

/-- A group whose constraint is cut short: the entries end before the bar. -/
theorem entriesUntil_stops {names : List String} (some : names ≠ [])
    (h : Spells (.expr .constraint x) ws) (cut : x.isArrayUnion = true) (rest : List Lexeme) :
    ∃ es vs, ∀ m, (spellNames names ++ ws).length < m →
      (typeParamEntries m).Reads (spellNames names ++ ws ++ rest) es (.op .bar :: vs) := by
  obtain ⟨y, vs, first⟩ := nameAndType_stops h cut rest
  exact ⟨_, vs, fun m long => entriesUntil_reads_group some long fun name n _ =>
    entriesUntil_reads_one nofun nofun nofun (first name)⟩

end Groups

/-- Groups of type parameters with commas between them, at least one: each has names, at least one,
and a constraint. -/
inductive SpellsTypeParams : List Field → List Lexeme → Prop
  | one {names : List String} {x : TypeExpr} {ws : List Lexeme} :
    names ≠ [] → Spells (.expr .constraint x) ws →
    SpellsTypeParams [{ names := names, type := x }] (spellNames names ++ ws)
  | more {names : List String} {x : TypeExpr} {fields : List Field} {ws vs : List Lexeme} :
    names ≠ [] → Spells (.expr .constraint x) ws → SpellsTypeParams fields vs →
    SpellsTypeParams ({ names := names, type := x } :: fields)
      (spellNames names ++ (ws ++ .op .comma :: vs))

namespace SpellsTypeParams

variable {fields : List Field} {ws rest : List Lexeme}

theorem exists_ident (h : SpellsTypeParams fields ws) : ∃ name us, ws = .ident name :: us := by
  have starts : ∀ {names : List String} (ws : List Lexeme), names ≠ [] →
      ∃ name us, spellNames names ++ ws = .ident name :: us := by
    intro names ws some
    obtain ⟨name, names, rfl⟩ := List.exists_cons_of_ne_nil some
    exact ⟨name, _, by rw [spellNames_cons, List.cons_append]⟩
  cases h with
  | one some => exact starts _ some
  | more some => exact starts _ some

/-- Constraints that are not cut short are read up to the closing bracket. -/
theorem entries_read (h : SpellsTypeParams fields ws)
    (whole : ∀ f ∈ fields, f.type.isArrayUnion = false) (rest : List Lexeme) {m : Nat}
    (long : ws.length < m) :
    (typeParamEntries m).Reads (ws ++ .op .rightBracket :: rest)
      ((bareFields fields).flatMap entriesOf) (.op .rightBracket :: rest) := by
  induction h generalizing m with
  | @one names x ws some spells =>
    show (typeParamEntries m).Reads _ (entriesOf _ ++ []) _
    rw [List.append_nil]
    exact entriesUntil_reads_last some spells (whole _ (List.mem_singleton_self _)) long
  | @more names x fields ws vs some spells k ih =>
    obtain ⟨_, _, rfl⟩ := k.exists_ident
    exact entriesUntil_reads_more some spells (whole _ (List.mem_cons_self ..))
      (fun n lt => ih (fun f mem => whole f (List.mem_cons_of_mem _ mem)) (Nat.succ_lt_succ lt)) long

/-- The first constraint that is cut short ends the entries. -/
theorem entries_stop (h : SpellsTypeParams fields ws)
    (cut : ∃ f ∈ fields, f.type.isArrayUnion = true) (rest : List Lexeme) :
    ∃ es vs, ∀ m, ws.length < m → (typeParamEntries m).Reads (ws ++ rest) es (.op .bar :: vs) := by
  induction h with
  | one some spells =>
    obtain ⟨f, mem, cut⟩ := cut
    cases List.mem_singleton.1 mem
    exact entriesUntil_stops some spells cut rest
  | @more names x fields ws vs some spells k ih =>
    cases first : x.isArrayUnion with
    | true =>
      obtain ⟨es, us, stops⟩ := entriesUntil_stops some spells first (.op .comma :: vs ++ rest)
      refine ⟨es, us, fun m long => ?_⟩
      have whole := stops m (by simp only [List.length_append] at long ⊢; omega)
      simpa only [List.append_assoc] using whole
    | false =>
      have later : ∃ f ∈ fields, f.type.isArrayUnion = true := by
        obtain ⟨f, mem, cut⟩ := cut
        rcases List.mem_cons.1 mem with rfl | behind
        · rw [first] at cut
          cases cut
        · exact ⟨f, behind, cut⟩
      obtain ⟨es, us, stops⟩ := ih later
      obtain ⟨_, _, rfl⟩ := k.exists_ident
      exact ⟨_, us, fun m long => entriesUntil_reads_more some spells first
        (fun n lt => stops (n + 1) (Nat.succ_lt_succ lt)) long⟩

/-- Each group has names, and is nothing but names and a constraint. -/
theorem named (h : SpellsTypeParams fields ws) : bareFields fields ≠ [] ∧
    ∀ f ∈ bareFields fields, f.names.isEmpty = !true ∧ f = { names := f.names, type := f.type } := by
  have isEmpty : ∀ {names : List String}, names ≠ [] → names.isEmpty = false := by
    intro names some
    exact Bool.eq_false_iff.2 fun none => some (List.isEmpty_iff.1 none)
  induction h with
  | one some =>
    refine ⟨nofun, fun f mem => ?_⟩
    cases List.mem_singleton.1 mem
    exact ⟨isEmpty some, rfl⟩
  | more some _ _ ih =>
    refine ⟨nofun, fun f mem => ?_⟩
    rcases List.mem_cons.1 mem with rfl | behind
    · exact ⟨isEmpty some, rfl⟩
    · exact ih.2 f behind

end SpellsTypeParams

/-! ## Lists -/

section Lists

variable {fields : List Field} {ws rest : List Lexeme}

theorem typeParams_reads (h : SpellsTypeParams fields ws)
    (whole : ∀ f ∈ fields, f.type.isArrayUnion = false) :
    typeParams.Reads (.op .leftBracket :: ws ++ .op .rightBracket :: rest) (bareFields fields)
      rest := by
  obtain ⟨some, named⟩ := h.named
  have entries := h.entries_read whole rest (m := (ws ++ .op .rightBracket :: rest).length + 1)
    (by rw [List.length_append]; omega)
  have list : (fieldList (.op .leftBracket) (.op .rightBracket) true).Reads
      (.op .leftBracket :: ws ++ .op .rightBracket :: rest) (bareFields fields) rest := by
    obtain ⟨_, _, rfl⟩ := h.exists_ident
    refine .expect fun _ => .bind (.passSemis nofun) <| .bind (.bounded entries) <|
      .expect fun _ => ?_
    rw [fieldsOf_entriesOf some named]
    exact .pure _ _
  have none : ((bareFields fields).any fun f => f.names.isEmpty) = false :=
    List.any_eq_false.2 fun f mem => Bool.eq_false_iff.1 (named f mem).1
  refine .bind list ?_
  rw [none]
  exact .pure _ _

/-- If a constraint is cut short, the closing bracket is missed at the bar behind its first term. -/
theorem typeParams_refuses (h : SpellsTypeParams fields ws)
    (cut : ∃ f ∈ fields, f.type.isArrayUnion = true) {c : Cursor} (clear : c.IsClear)
    (ahead : c.ahead = .op .leftBracket :: ws ++ .op .rightBracket :: rest) :
    ∃ t, t.lexeme = .op .bar ∧
      typeParams c = .error ⟨.expected (.word (.op .rightBracket)), t⟩ := by
  obtain ⟨es, vs, stops⟩ := h.entries_stop cut (.op .rightBracket :: rest)
  have entries := stops ((ws ++ .op .rightBracket :: rest).length + 1)
    (by rw [List.length_append]; omega)
  have semi : (ws ++ .op .rightBracket :: rest).headD .eof ≠ .op .semicolon := by
    obtain ⟨_, _, rfl⟩ := h.exists_ident
    exact nofun
  have behind : c.advance.ahead = ws ++ .op .rightBracket :: rest := Cursor.ahead_advance ahead
  obtain ⟨c₂, skipped, clear₂, ahead₂⟩ := Parser.Reads.passSemis semi c.advance (clear.pass 1) behind
  obtain ⟨c₃, run, _, ahead₃⟩ := (Parser.Reads.bounded entries) c₂ clear₂ ahead₂
  have here : c₃.current.lexeme = .op .bar := Cursor.current_lexeme_of_ahead ahead₃
  have missing : expect (.op .rightBracket) c₃ =
      .error ⟨.expected (.word (.op .rightBracket)), c₃.current⟩ := by
    rw [expect, isAt_bind, here]
    rfl
  refine ⟨c₃.current, here, bind_of_error ?_⟩
  rw [fieldList, fieldListWith, bind_of_ok (expect_of_ahead ahead), bind_of_ok skipped, bind_of_ok run]
  exact bind_of_error missing

/-- A list of type parameters is read back exactly if no constraint of several terms begins with an
array type. -/
theorem typeParams_spelled_iff (h : SpellsTypeParams fields ws) {c : Cursor} (clear : c.IsClear)
    (ahead : c.ahead = .op .leftBracket :: ws ++ .op .rightBracket :: rest) :
    (∃ c', typeParams c = .ok (bareFields fields, c') ∧ c'.ahead = rest) ↔
      ∀ f ∈ fields, f.type.isArrayUnion = false := by
  constructor
  · rintro ⟨c', run, _⟩ f mem
    cases cut : f.type.isArrayUnion with
    | false => rfl
    | true =>
      obtain ⟨t, _, refused⟩ := typeParams_refuses h ⟨f, mem, cut⟩ clear ahead
      rw [run] at refused
      cases refused
  · intro whole
    obtain ⟨c', run, _, behind⟩ := typeParams_reads h whole c clear ahead
    exact ⟨c', run, behind⟩

/-- One group of two names, whose constraint is an array type; a call follows. -/
theorem typeParams_spelled_iff_slice :
    let words : List Lexeme := [.op .leftBracket, .ident "A", .op .comma, .ident "B",
      .op .leftBracket, .op .rightBracket, .ident "int", .op .rightBracket, .op .leftParen]
    let c : Cursor := .ofTokens (words.map fun w => ⟨w, ⟨1, 1⟩, false⟩) ⟨.eof, ⟨1, 1⟩, false⟩ []
    (∃ c', typeParams c =
        .ok ([{ names := ["A", "B"], type := .array (.name "int") none }], c') ∧
        c'.ahead = [.op .leftParen]) ↔
      ∀ f ∈ [({ names := ["A", "B"], type := .array (.name "int") none } : Field)],
        f.type.isArrayUnion = false := by
  intro words c
  have constraint : Spells (.expr .constraint (.array (.name "int") none))
      [.op .leftBracket, .op .rightBracket, .ident "int"] :=
    .constraintTerm (.termType (.slice (.typeName .name)))
  have spells : SpellsTypeParams [{ names := ["A", "B"], type := .array (.name "int") none }] _ :=
    .one (List.cons_ne_nil _ _) constraint
  exact typeParams_spelled_iff spells ⟨rfl, rfl, rfl⟩ rfl

/-- A constraint of two array types is accepted alone, and refused for a type parameter. -/
theorem typeParams_refuses_arrays :
    (∃ x, constraint.run "[]int | []string" = .ok x) ∧
      ∀ fields, typeParams.run "[T []int | []string]" ≠ .ok fields := by
  have accepted : (constraint.run "[]int | []string").toOption.map (fun _ => ()) = some () := by
    decide +kernel
  have refused : (typeParams.run "[T []int | []string]").toOption.isNone = true := by
    decide +kernel
  obtain ⟨x, accepted, _⟩ := exists_of_toOption_map accepted
  refine ⟨⟨x, accepted⟩, fun fields run => ?_⟩
  rw [run] at refused
  cases refused

end Lists

end Typings
