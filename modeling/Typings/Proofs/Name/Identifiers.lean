import Typings.Proofs.Members.Keys
import Typings.Proofs.Parser.Names
import Typings.Proofs.Token.Scanned
import Typings.Proofs.Token.Spaced

/-!
# Identifiers are what the scanner takes for one word

A name may stand bare as a key exactly if the scanner reads the whole of it as one identifier or one
keyword: the two sides agree on the characters, and the reserved words are identifiers like others. So what
a source calls its members may stand bare, and as long as names are kept no member is written in quotes
(`Name.isIdentifier_iff_scanned`).
-/

namespace Typings

namespace Name

/-! ## Characters -/

theorem isPart_eq : isPart = continuesIdent := by
  funext c
  rw [isPart, continuesIdent, Unicode.isAlphanumeric, Bool.or_assoc]

theorem isScanned_of_isReserved {name : String} (reserved : isReserved name = true) :
    (Lexeme.ident name).IsScanned := by
  have all : reservedWords.all (fun word =>
      word.toList.head?.any beginsIdent && word.toList.all continuesIdent) = true := by
    decide +kernel
  obtain ⟨begins, continues⟩ := Bool.and_eq_true_iff.1
    (List.all_eq_true.1 all name (List.contains_iff_mem.1 reserved))
  obtain ⟨c, first, begins⟩ := (Option.any_eq_true _ _).1 begins
  obtain ⟨cs, chars⟩ := List.head?_eq_some_iff.1 first
  rw [chars, List.all_cons, Bool.and_eq_true] at continues
  exact ⟨c, cs, chars, begins, continues.2⟩

/-- An identifier begins and goes on as the words of a source do; reserved words are no exception. -/
theorem isIdentifier_iff {name : String} :
    isIdentifier name = true ↔ (Lexeme.ident name).IsScanned := by
  unfold isIdentifier
  rw [Bool.or_eq_true]
  constructor
  · rintro (reserved | parts)
    · exact isScanned_of_isReserved reserved
    · split at parts
      · cases parts
      · next c cs chars =>
        obtain ⟨begins, continues⟩ := Bool.and_eq_true_iff.1 parts
        exact ⟨c, cs, chars, begins, isPart_eq ▸ continues⟩
  · rintro ⟨c, cs, chars, begins, continues⟩
    refine .inr ?_
    rw [chars, isPart_eq]
    exact Bool.and_eq_true_iff.2 ⟨begins, continues⟩

end Name

/-! ## Words by themselves -/

/-- An identifier or a keyword. -/
def Lexeme.isWordLike : Lexeme → Bool
  | .ident _ | .keyword _ => true
  | _ => false

theorem isWordLike_wordLexeme (word : String) : (wordLexeme word).isWordLike = true := by
  unfold wordLexeme
  split <;> rfl

/-- A keyword is made of the same characters as an identifier. -/
theorem Keyword.isScanned_text (keyword : Keyword) : (Lexeme.ident keyword.text).IsScanned := by
  cases keyword <;> exact ⟨_, _, rfl, by decide, by decide⟩

/-- What begins and goes on as an identifier is one word. -/
theorem isWord_wordLexeme {word : String} (h : (Lexeme.ident word).IsScanned) :
    (wordLexeme word).IsWord := by
  obtain ⟨c, cs, chars, begins, continues⟩ := h
  unfold wordLexeme
  split
  · trivial
  · next free => exact ⟨c, cs, chars, begins, continues, free⟩

/-- What is scanned as one identifier or keyword begins and goes on as an identifier. -/
theorem isScanned_text_of_isWordLike {w : Lexeme} (h : w.IsScanned) (word : w.isWordLike = true) :
    (Lexeme.ident w.text).IsScanned := by
  cases w with
  | ident name => exact h
  | keyword keyword => exact keyword.isScanned_text
  | _ => cases word

namespace Layout

/-- The first token, which is the one that ends the text if there is no other. -/
def first (layout : Layout) : Token := layout.tokens.headD layout.last

/-- The first token of what begins and goes on as an identifier is that word. -/
theorem exists_first_of_isScanned {word : String} (h : (Lexeme.ident word).IsScanned) :
    ∃ layout, ofSource word = .ok layout ∧ layout.first.lexeme = wordLexeme word := by
  obtain ⟨layout, semis, scanned, -, lexemes, -⟩ :=
    ofSource_spaced (List.forall_mem_singleton.2 (isWord_wordLexeme h))
  have text : spaced [wordLexeme word] = word := by
    rw [spaced, List.map_singleton, String.intercalate_singleton, wordLexeme_text]
  rw [text] at scanned
  obtain ⟨t, ts, tokens, here, -⟩ := List.map_eq_cons_iff.1 lexemes
  refine ⟨layout, scanned, ?_⟩
  rw [first, tokens]
  exact here

/-- The first token of a source that is no mark of the end has been scanned. -/
theorem isScanned_first {source : String} {layout : Layout} (h : ofSource source = .ok layout)
    (word : layout.first.lexeme.isWordLike = true) : layout.first.lexeme.IsScanned := by
  unfold first at word ⊢
  cases tokens : layout.tokens with
  | nil =>
    rw [tokens] at word
    cases word
  | cons t ts =>
    have mem : t ∈ layout.tokens := by
      rw [tokens]
      exact List.mem_cons_self
    exact isScanned_of_mem h mem

/-- A word begins and goes on as an identifier exactly if it is the first token of the source that it is. -/
theorem isScanned_iff_first {word : String} :
    (Lexeme.ident word).IsScanned ↔ ∃ layout, ofSource word = .ok layout ∧
      layout.first.lexeme.isWordLike = true ∧ layout.first.lexeme.text = word := by
  constructor
  · intro h
    obtain ⟨layout, scanned, first⟩ := exists_first_of_isScanned h
    refine ⟨layout, scanned, ?_, ?_⟩
    · rw [first]
      exact isWordLike_wordLexeme word
    · rw [first, wordLexeme_text]
  · rintro ⟨layout, scanned, wordLike, text⟩
    have h := isScanned_text_of_isWordLike (isScanned_first scanned wordLike) wordLike
    rwa [text] at h

end Layout

/-! ## Members -/

section

variable {good : String → Prop} {room : Nat} {s : SourceMember}

/-- The members of a body are visible names of its fields, or stand inside their types. -/
theorem of_mem_bodyMembers {holds : SourceMember → Prop} {isMethod : Bool}
    {inside : Field → List SourceMember} {fields : List Field}
    (own : ∀ f ∈ fields, ∀ name ∈ f.names, Name.isVisible name = true →
      holds ⟨name, isMethod, f.type, room⟩)
    (inner : ∀ f ∈ fields, ∀ s ∈ inside f, holds s)
    (mem : s ∈ bodyMembers isMethod room inside fields) : holds s := by
  obtain ⟨f, field, mem⟩ := List.mem_flatMap.1 mem
  obtain ⟨name, among, mem⟩ := List.mem_flatMap.1 mem
  obtain ⟨among, visible⟩ := List.mem_filter.1 among
  rcases List.mem_cons.1 mem with rfl | behind
  · exact own f field name among visible
  · exact inner f field s behind

/-- The members inside a list of parameters or results stand inside the types of its fields. -/
theorem of_mem_listMembers {holds : SourceMember → Prop} {inside : Field → List SourceMember}
    {fields : List Field} (inner : ∀ f ∈ fields, ∀ s ∈ inside f, holds s)
    (mem : s ∈ listMembers inside fields) : holds s := by
  obtain ⟨f, field, mem⟩ := List.mem_flatMap.1 mem
  obtain ⟨part, repeated, mem⟩ := List.mem_flatten.1 mem
  rw [List.eq_of_mem_replicate repeated] at mem
  exact inner f field s mem

/-- The name of each member of a type is visible, and good if all words of the type are. -/
theorem TypeExpr.WordsIn.of_mem_members {x : TypeExpr} (words : x.WordsIn good)
    (mem : s ∈ x.members room) : Name.isVisible s.name = true ∧ good s.name := by
  induction room generalizing x s with
  | zero => cases mem
  | succ room ih =>
    cases x with
    | pointer x | variadic x | paren x | array x size => exact ih (x := x) words mem
    | struct fields =>
      have all := fieldsIn_iff.1 words
      exact of_mem_bodyMembers (fun f field name among visible => ⟨visible, (all f field).1 name among⟩)
        (fun f field s mem => ih (all f field).2.deref mem) mem
    | interface methods =>
      have all := fieldsIn_iff.1 words
      exact of_mem_bodyMembers (fun f field name among visible => ⟨visible, (all f field).1 name among⟩)
        (fun f field s mem => ih (all f field).2 mem) mem
    | binary x op y =>
      rcases List.mem_append.1 mem with left | right
      · exact ih words.1 left
      · exact ih words.2.2 right
    | func params results typeParams =>
      have params_words := fieldsIn_iff.1 words.1
      have results_words := fieldsIn_iff.1 words.2
      rcases List.mem_append.1 mem with left | right
      · exact of_mem_listMembers (fun f field s mem => ih (params_words f field).2.deref mem) left
      · exact of_mem_listMembers (fun f field s mem => ih (results_words f field).2 mem) right
    | unary op x =>
      rw [TypeExpr.members] at mem
      split at mem
      · exact ih (x := x) words mem
      · cases mem
    | generic x args =>
      rcases List.mem_append.1 mem with base | behind
      · exact ih words.1 base
      · obtain ⟨arg, among, mem⟩ := List.mem_flatMap.1 behind
        exact ih (typesIn_iff.1 words.2 arg among) mem
    | _ => cases mem

/-- The same of a declaration that is not hidden. -/
theorem Decl.WordsIn.of_mem_members {ctx : Context} {d : Decl} {t : TsDecl} (words : d.WordsIn good)
    (shown : TsDecl.ofDecl ctx d = .ok (some t)) (mem : s ∈ d.members room) :
    Name.isVisible s.name = true ∧ good s.name := by
  cases d with
  | typeSpec spec =>
    have body : ∀ fields, FieldsIn good fields →
        s ∈ (Field.visibleBases fields).flatMap (TypeExpr.members room) →
        Name.isVisible s.name = true ∧ good s.name := by
      intro fields all mem
      obtain ⟨base, among, mem⟩ := List.mem_flatMap.1 mem
      obtain ⟨f, field, rfl⟩ := List.mem_map.1 among
      exact (fieldsIn_iff.1 all f (List.mem_filter.1 field).1).2.of_mem_members mem
    have inside := words.2.2
    unfold Decl.members at mem
    dsimp only at mem
    cases type : spec.type with
    | struct fields =>
      rw [type] at mem inside
      rcases List.mem_append.1 mem with base | own
      · exact body fields inside base
      · have own : s ∈ (TypeExpr.struct fields).members (room + 1) := own
        exact inside.of_mem_members own
    | interface methods =>
      rw [type] at mem inside
      rcases List.mem_append.1 mem with base | own
      · exact body methods inside base
      · have own : s ∈ (TypeExpr.interface methods).members (room + 1) := own
        exact inside.of_mem_members own
    | _ =>
      rw [type] at mem inside
      exact inside.of_mem_members mem
  | func decl =>
    obtain ⟨said, -, inside, -⟩ := words
    unfold Decl.members at mem
    dsimp only at mem
    cases owner : decl.recv with
    | none =>
      rw [owner] at mem
      exact inside.of_mem_members mem
    | some recv =>
      rw [owner] at mem
      rcases List.mem_cons.1 mem with rfl | behind
      · have method : TsDecl.ofMethod? ctx decl recv = some t := by
          simpa [TsDecl.ofDecl, owner] using shown
        obtain ⟨visible, -⟩ := Option.ite_none_right_eq_some.1 method
        exact ⟨(Bool.and_eq_true_iff.1 visible).1, said⟩
      · exact inside.of_mem_members behind
  | unknown => cases shown

end

/-! ## Keys -/

/-- The member is written under its own name, which may stand bare. -/
def BareAs (w : WrittenMember) (s : SourceMember) : Prop :=
  w.member.key = s.name ∧ Name.isIdentifier s.name = true

/-- Where names are kept, members are written under their own names if these may stand bare. -/
theorem AllWrittenAs.bare {config : Config} {indent : String} {ws : List WrittenMember}
    {ss : List SourceMember} (h : AllWrittenAs config indent ws ss) (fields : config.fieldNames = .keep)
    (methods : config.methodNames = .keep) (all : ∀ s ∈ ss, Name.isIdentifier s.name = true) :
    List.Forall₂ BareAs ws ss := by
  induction h with
  | nil => exact .nil
  | @cons w s ws ss first _ ih =>
    obtain ⟨here, later⟩ := List.forall_mem_cons.1 all
    refine .cons ⟨?_, here⟩ (ih later)
    rw [first.1, SourceMember.key, fields, methods, ite_self, NameStyle.apply, Name.propertyKey,
      if_pos here]

/-- Identifiers may stand bare, and of the words that are parsed, all that are visible are identifiers. -/
theorem bare_of_isScanned {name : String} (h : (Lexeme.ident name).IsScanned) :
    Name.isVisible name = true → Name.isIdentifier name = true := fun _ => Name.isIdentifier_iff.2 h

/-- A name may stand bare as a key exactly if it is read as a source whose first token is an identifier or
a keyword and the whole of it. So, where names are kept, all members of what has been parsed are written
under their own names, and these are bare. -/
theorem Name.isIdentifier_iff_scanned :
    (∀ word, isIdentifier word = true ↔ ∃ layout, Layout.ofSource word = .ok layout ∧
      layout.first.lexeme.isWordLike = true ∧ layout.first.lexeme.text = word) ∧
    ∀ ctx : Context, ctx.config.fieldNames = .keep → ctx.config.methodNames = .keep →
      (∀ source file, File.parse source = .ok file →
        ∀ d ∈ file.decls, ∀ t, TsDecl.ofDecl ctx d = .ok (some t) →
          List.Forall₂ BareAs t.written (d.members ctx.room)) ∧
      ∀ source x, TypeExpr.parse source = .ok x → ∀ slot depth,
        List.Forall₂ BareAs ((TsType.ofExpr ctx ctx.room slot x).written depth)
          (x.members ctx.room) := by
  have hidden : Name.isVisible "|" = true → isIdentifier "|" = true := fun h => absurd h (by decide)
  refine ⟨fun word => isIdentifier_iff.trans Layout.isScanned_iff_first,
    fun ctx fields methods => ⟨?_, ?_⟩⟩
  · intro source file parsed d mem t shown
    have words := File.wordsIn_of_parse parsed bare_of_isScanned hidden d mem
    have written : AllWrittenAs ctx.config "" t.written (d.members ctx.room) := by
      cases d with
      | typeSpec spec => exact typeSpecWrittenAs (by simpa [TsDecl.ofDecl] using shown)
      | func decl => exact funcWrittenAs shown
      | unknown => cases shown
    refine written.bare fields methods fun s among => ?_
    obtain ⟨visible, bare⟩ := words.of_mem_members shown among
    exact bare visible
  · intro source x parsed slot depth
    have words := TypeExpr.wordsIn_of_parse parsed bare_of_isScanned hidden
    refine (typesWrittenAs ctx "" ctx.room slot depth x).bare fields methods fun s among => ?_
    obtain ⟨visible, bare⟩ := words.of_mem_members among
    exact bare visible

/-- A word that is reserved, members inside a member, and a method that is hidden. -/
theorem Name.isIdentifier_iff_scanned_nested :
    (∃ layout, Layout.ofSource "class" = .ok layout ∧ layout.first.lexeme.isWordLike = true ∧
      layout.first.lexeme.text = "class") ∧
    ∃ file d t, File.parse "type T struct \x7b A int; B interface \x7b C(); d() \x7d \x7d" = .ok file ∧
      d ∈ file.decls ∧ TsDecl.ofDecl { config := {} } d = .ok (some t) ∧
      List.Forall₂ BareAs t.written (d.members 64) ∧
      t.written.map (fun w => w.member.key) = ["A", "B", "C"] := by
  refine ⟨(isIdentifier_iff_scanned.1 "class").1 (by decide +kernel), ?_⟩
  have keys : (File.parse "type T struct \x7b A int; B interface \x7b C(); d() \x7d \x7d").toOption.map
      (fun file => file.decls.map fun d => (TsDecl.ofDecl { config := {} } d).toOption.map fun t =>
        t.map fun t => t.written.map fun w => w.member.key) =
      some [some (some ["A", "B", "C"])] := by
    decide +kernel
  obtain ⟨file, parsed, keys⟩ := exists_of_toOption_map keys
  obtain ⟨d, decls, keys⟩ := List.map_eq_singleton_iff.1 keys
  obtain ⟨rendered, shown, keys⟩ := exists_of_toOption_map keys
  obtain ⟨t, same, keys⟩ := Option.map_eq_some_iff.1 keys
  rw [same] at shown
  have mem : d ∈ file.decls := by
    rw [decls]
    exact List.mem_singleton_self d
  exact ⟨file, d, t, parsed, mem, shown,
    (isIdentifier_iff_scanned.2 { config := {} } rfl rfl).1 _ file parsed d mem t shown, keys⟩

end Typings
