import Typings.Proofs.Joined.Decls
import Typings.Proofs.LineEnds.Types

/-!
# Line ends do not matter

A source may have a carriage return before each newline: it is rendered as without them, to the same text
with the same notes, or it is refused in both forms (`Rendering.ofSource_crlf`). The productions for
declarations run alike, so that the same is seen of all declarations, and a rendering goes by what it sees.
-/

namespace Typings

open Text (crlf)

variable {α β γ δ : Type}

namespace Parser.Alike

/-! ## Passing over -/

/-- Passing as many tokens as are counted, by what shows of them. -/
theorem passCounted {count : List Token → Option Nat} {cause : ParseCause}
    (shows : ∀ {ms : List Comment} (ts : List (TokenPair ms)),
      count (ts.map TokenPair.snd) = count (ts.map TokenPair.fst)) :
    Alike id (Parser.passCounted count cause) (Parser.passCounted count cause) := fun ms d => by
  have same : count d.snd.rest = count d.fst.rest := shows d.rest
  rw [Parser.passCounted, Parser.passCounted, same]
  cases count d.fst.rest with
  | some n =>
    dsimp only
    rw [← d.fst_pass, ← d.snd_pass]
    exact .ok (d.pass n) rfl
  | none => exact .error _ _

/-- Blocks are as long with either line end: braces are told by their lexemes. -/
theorem length_blockEnd? {ms : List Comment} (depth : Nat) (ts : List (TokenPair ms)) :
    (blockEnd? depth (ts.map TokenPair.snd)).map List.length =
      (blockEnd? depth (ts.map TokenPair.fst)).map List.length := by
  induction ts generalizing depth with
  | nil => rfl
  | cons t ts ih =>
    rw [List.map_cons, List.map_cons, blockEnd?, blockEnd?]
    rcases Lexeme.eq_or_literal t.seen with same | ⟨kind, text, text', first, second⟩
    · rw [same]
      split
      · exact ih _
      · split
        · simp
        · exact ih _
      · exact ih _
    · rw [first, second]
      exact ih depth

theorem blockLength? {ms : List Comment} (ts : List (TokenPair ms)) :
    Parser.blockLength? (ts.map TokenPair.snd) = Parser.blockLength? (ts.map TokenPair.fst) := by
  have counts : ∀ ts : List Token, Parser.blockLength? ts =
      ((blockEnd? 1 ts).map List.length).map (ts.length - ·) := by
    intro ts
    rw [Parser.blockLength?, Option.map_map]
    rfl
  rw [counts, counts, length_blockEnd?, List.length_map, List.length_map]

theorem groupLength? {ms : List Comment} (ts : List (TokenPair ms)) :
    Parser.groupLength? (ts.map TokenPair.snd) = Parser.groupLength? (ts.map TokenPair.fst) := by
  have same : (fun t : Token => decide (t.lexeme = .op .rightParen)) ∘ TokenPair.snd =
      (fun t : Token => decide (t.lexeme = .op .rightParen)) ∘ @TokenPair.fst ms :=
    funext fun t => decide_eq_decide.2 (t.eq_iff rfl)
  rw [Parser.groupLength?, Parser.groupLength?, List.findIdx?_map, List.findIdx?_map, same]

theorem passBlock : Alike id Parser.passBlock Parser.passBlock := by
  rw [passBlock_eq]
  exact expect rfl fun _ _ => passCounted blockLength?

theorem passImportGroup : Alike id Parser.passImportGroup Parser.passImportGroup := by
  rw [passImportGroup_eq]
  exact passCounted groupLength?

theorem importHead : Alike id Parser.importHead Parser.importHead := by
  refine expect rfl fun _ _ => isAtIf rfl (advance fun _ _ => passImportGroup) ?_
  refine current fun t u seen => ?_
  rw [Lexeme.congr_seen Lexeme.isIdent_seen seen, decide_eq_decide.2 (Lexeme.eq_iff_of_seen rfl seen)]
  refine bind (ite discardAdvance (pure rfl)) fun _ _ _ => current fun t u seen => ?_
  rw [Lexeme.congr_seen Lexeme.isString_seen seen]
  exact ite discardAdvance (fail _ _)

/-! ## Types -/

theorem optional {see : α → γ} {look : Cursor → Bool} {p : Parser α}
    (same : ∀ {ms : List Comment} (d : CursorPair ms), look d.snd = look d.fst) (h : Alike see p p)
    (x : α) : Alike see (Parser.optional look p x) (Parser.optional look p x) :=
  askIf same h (pure rfl)

theorem typeParams : Alike (List.map Field.seen) Parser.typeParams Parser.typeParams := by
  refine bind (fieldListWith type rfl rfl true) fun fs fs' shows => ?_
  have unnamed : ∀ fs : List Field, ((fs.map Field.seen).any fun f => f.names.isEmpty) =
      fs.any fun f => f.names.isEmpty := fun _ => List.any_map
  rw [← unnamed fs', shows, unnamed fs]
  exact ite (fail _ _) (pure shows)

/-- A specification shows the same, its documentation told by its lines. -/
theorem typeSpec {doc doc' : Option CommentGroup}
    (told : doc'.map CommentGroup.plain = doc.map CommentGroup.plain) :
    Alike TypeSpec.seen (Parser.typeSpec doc) (Parser.typeSpec doc') := by
  rw [typeSpec_eq, typeSpec_eq]
  refine bind_id ident fun name => ?_
  refine bind (optional (fun d => d.showsTypeParams) typeParams []) fun _ _ params => ?_
  refine bind_id (isAt rfl) fun isAlias => bind (ite discardAdvance (pure rfl)) fun _ _ _ => ?_
  refine bind type fun _ _ types => bind commentBehind fun _ _ comments => pure ?_
  rw [TypeSpec.seen, TypeSpec.seen, params, types, told, comments]

theorem groupItem : Alike TypeSpec.seen Parser.groupItem Parser.groupItem :=
  bind docHere fun _ _ told => (typeSpec told).statement

/-- A type declaration shows what its specifications show. -/
theorem typeDeclHead : Alike (List.map TypeSpec.seen) Parser.typeDeclHead Parser.typeDeclHead := by
  refine bind docHere fun _ _ told => expect rfl fun _ _ => isAtIf rfl ?_ ?_
  · exact advance fun _ _ => bind (bounded fun n => itemsUntil rfl groupItem n) fun _ _ specs =>
      expect rfl fun _ _ => pure specs
  · exact bind (typeSpec told) fun _ _ spec => pure (map_cons_congr spec rfl)

/-! ## Functions -/

theorem receiver : Alike Field.seen Parser.receiver Parser.receiver := by
  refine bind (fieldListWith type rfl rfl false) fun fs fs' shows => ?_
  split
  · next recv =>
    obtain ⟨recv', rfl, same⟩ := List.map_eq_singleton_iff.1 shows
    exact pure same
  · next several =>
    split
    · next recv' =>
      obtain ⟨recv, rfl, -⟩ := List.map_eq_singleton_iff.1 shows.symm
      exact absurd rfl (several recv)
    · exact fail _ _

theorem someReceiver :
    Alike (Option.map Field.seen) (some <$> Parser.receiver) (some <$> Parser.receiver) := by
  rw [map_eq_pure_bind]
  exact bind receiver fun _ _ recv => pure (congrArg some recv)

/-- A function shows the same; its body is passed over the same number of tokens. -/
theorem funcDeclHead : Alike FuncDecl.seen Parser.funcDeclHead Parser.funcDeclHead := by
  refine bind docHere fun _ _ told => expect rfl fun _ _ => ?_
  refine bind (optional (isAt_same rfl) someReceiver none) fun _ _ recv => bind_id ident fun name => ?_
  refine bind (optional (isAt_same rfl) typeParams []) fun _ _ typeParams => ?_
  refine bind (paramsWith type) fun _ _ params => bind (resultsWith type) fun _ _ results => ?_
  refine bind (optional (isAt_same rfl) passBlock ()) fun _ _ _ => pure ?_
  rw [FuncDecl.seen, FuncDecl.seen, recv, typeParams, params, results, told]

/-! ## Files -/

theorem statementOf {see : α → γ} {see' : β → δ} {head : Parser α} {f : α → β}
    (h : Alike see head head) (shows : ∀ {x y}, see y = see x → see' (f y) = see' (f x)) :
    Alike see' (Parser.statementOf head f) (Parser.statementOf head f) :=
  bind h fun _ _ same => bind endStatement fun _ _ _ => pure (shows same)

/-- Declarations show the same with either line end. -/
theorem declaration : Alike (List.map Decl.seen) Parser.declaration Parser.declaration := by
  rw [declaration_eq]
  refine current fun t u seen => ?_
  rcases Lexeme.eq_or_literal seen with same | ⟨kind, text, text', first, second⟩
  · rw [same]
    split
    · exact statementOf importHead fun _ => rfl
    · refine statementOf typeDeclHead fun {specs specs'} shows => ?_
      have decls : ∀ specs : List TypeSpec,
          (specs.map Decl.typeSpec).map Decl.seen = (specs.map TypeSpec.seen).map Decl.typeSpec := by
        intro specs
        rw [List.map_map, List.map_map]
        rfl
      rw [decls, decls, shows]
    · exact statementOf funcDeclHead fun shows => map_cons_congr (congrArg Decl.func shows) rfl
    · exact fail _ _
  · rw [first, second]
    exact fail _ _

theorem packageClause : Alike id Parser.packageClause Parser.packageClause :=
  isAtIf rfl (advance fun _ _ => bind_id ident fun _ => bind endStatement fun _ _ _ => pure rfl)
    (pure rfl)

/-- The declarations of a file show the same with either line end. -/
theorem file : Alike (fun f : File => f.decls.map Decl.seen) Parser.file Parser.file := by
  refine bind passSemis fun _ _ _ => bind packageClause fun _ _ _ => ?_
  refine bind (bounded fun n => itemsUntil rfl declaration n) fun ds ds' shows => pure ?_
  rw [List.map_flatten, List.map_flatten]
  exact congrArg List.flatten shows

end Parser.Alike

/-! ## Renderings -/

/-- From a source with a carriage return before each newline and from the source itself, the parser gives
the same to see, or it refuses both. -/
theorem Parser.Alike.run {see : α → γ} {p : Parser α} (h : Alike see p p) {cs : List Char}
    (unescaped : Unescaped cs) :
    (∃ x y, p.run (String.ofList cs) = .ok x ∧ p.run (String.ofList (crlf cs)) = .ok y ∧ see y = see x) ∨
    ∃ e e', p.run (String.ofList cs) = .error e ∧ p.run (String.ofList (crlf cs)) = .error e' := by
  rcases Layout.exists_pair unescaped with ⟨ms, d, first, second⟩ | ⟨e, e', first, second⟩
  · obtain ⟨c, start, start'⟩ := d.exists_cursorPair
    have runs := h ms c
    rw [start, start'] at runs
    rw [Parser.run, Parser.run, first, second]
    dsimp only
    generalize p (.ofLayout d.fst) = r at runs ⊢
    generalize p (.ofLayout d.snd) = r' at runs ⊢
    cases runs with
    | ok d' shows => exact .inl ⟨_, _, rfl, rfl, shows⟩
    | error e e' => exact .inr ⟨_, _, rfl, rfl⟩
  · refine .inr ⟨.scan e, .scan e', ?_, ?_⟩
    · rw [Parser.run, first]
    · rw [Parser.run, second]

/-- Declarations that show the same are rendered alike. -/
theorem Rendering.ofDecls_congr {config : Config} {ds ds' : List Decl}
    (shows : ds'.map Decl.seen = ds.map Decl.seen) : ofDecls config ds' = ofDecls config ds := by
  have same := congrArg (TsDecl.ofDecls { config := config }) shows
  rw [TsDecl.ofDecls_seen, TsDecl.ofDecls_seen] at same
  rw [ofDecls, ofDecls, same]

/-- Line ends do not matter: a source with a carriage return before each newline is rendered as the source
is, with the same text and the same notes, or both are refused. No newline may be behind a backslash, where
it is the character that the backslash hides. -/
theorem Rendering.ofSource_crlf (config : Config) {source : String} (unescaped : Unescaped source.toList) :
    (ofSource config (String.ofList (crlf source.toList))).toOption =
      (ofSource config source).toOption := by
  have parsed := Parser.Alike.file.run unescaped
  rw [String.ofList_toList] at parsed
  rw [ofSource, ofSource, File.parse, File.parse]
  rcases parsed with ⟨file, file', first, second, shows⟩ | ⟨e, e', first, second⟩
  · rw [first, second]
    dsimp only
    rw [ofDecls_congr shows]
  · rw [first, second]
    rfl

/-- Carriage returns inside a block comment, behind a line comment and inside a tag. -/
theorem Rendering.ofSource_crlf_cart :
    (ofSource {} (String.ofList (crlf ("/*\nCart adds\nup.\n*/\ntype Cart struct \x7b\n" ++
        "\tTotal Money // in all\n\tNote string `a\nb`\n\x7d\n").toList))).toOption.map
          (fun r => (r.text, r.noted.unknown.toList)) =
      some ("type _TygojaDict = \x7b [key:string | number | symbol]: any; \x7d\n\n" ++
        "/**\n * Cart adds\n * up.\n */\ninterface Cart \x7b\n  Total: Money // in all\n" ++
        "  Note: string\n\x7d\n", ["Money"]) := by
  have unescaped : Unescaped ("/*\nCart adds\nup.\n*/\ntype Cart struct \x7b\n" ++
      "\tTotal Money // in all\n\tNote string `a\nb`\n\x7d\n").toList := by
    decide +kernel
  rw [ofSource_crlf {} unescaped]
  decide +kernel

end Typings
