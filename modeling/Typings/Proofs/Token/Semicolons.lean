import Typings.Proofs.Token.Pieces

/-!
# Where line ends put semicolons

Between two written tokens with nothing but blanks, newlines and comments between them stands one
semicolon if the first of them ends a statement and a newline lies between them, be it in a comment;
otherwise none. Behind the last written token stands one exactly if it ends a statement, and before the
first stands none (`Layout.isPunctuated`). However many lines lie between two tokens, the first line
end alone is the end of the line with a token: the others have no last lexeme to go by
(`Layout.exists_tokens_gap`).
-/

namespace Typings

/-- The lexeme that an item is. -/
def Item.lexeme? : Item → Option Lexeme
  | .word lexeme => some lexeme
  | _ => none

/-- The lexemes among items, in their order. -/
def lexemesOf (items : List Item) : List Lexeme := items.filterMap Item.lexeme?

/-- The lexemes of the tokens that are written in the source, in their order. -/
def writtenLexemes (tokens : List Token) : List Lexeme :=
  (tokens.filter fun t => !t.auto).map Token.lexeme

/-- A newline is among the characters of the items. -/
def HasNewline (items : List Item) : Prop := '\n' ∈ items.flatMap Item.text

instance : DecidablePred HasNewline := fun _ => inferInstanceAs (Decidable (_ ∈ _))

/-- One semicolon for a line end, if the condition holds, and nothing otherwise. -/
def Token.semicolonIf (condition : Prop) [Decidable condition] (p : Position) : List Token :=
  if condition then [⟨.op .semicolon, p, true⟩] else []

/-- The semicolons for line ends among the tokens stand where the items demand them. In each of the
rules, `between` is all there is of tokens between two written ones, before the first or behind the
last. -/
structure IsPunctuated (items : List Item) (tokens : List Token) : Prop where
  /-- The written tokens are the lexemes of the items. -/
  written : writtenLexemes tokens = lexemesOf items
  /-- Two written tokens that follow each other are two lexemes of the items with only blanks,
  newlines and comments between them, and these decide. -/
  inside : ∀ {front between back : List Token} {t u : Token},
    tokens = front ++ t :: (between ++ u :: back) → t.auto = false → u.auto = false →
    (∀ s ∈ between, s.auto = true) →
    ∃ before gap after place,
      items = before ++ .word t.lexeme :: (gap ++ .word u.lexeme :: after) ∧
      lexemesOf before = writtenLexemes front ∧ lexemesOf gap = [] ∧
      lexemesOf after = writtenLexemes back ∧
      between = Token.semicolonIf (t.lexeme.endsStatement = true ∧ HasNewline gap) place
  /-- The first written token is the first token. -/
  first : ∀ {between back : List Token} {u : Token}, tokens = between ++ u :: back →
    u.auto = false → (∀ s ∈ between, s.auto = true) → between = []
  /-- Behind the last written token, the end of the text is a line end. -/
  last : ∀ {front between : List Token} {t : Token}, tokens = front ++ t :: between →
    t.auto = false → (∀ s ∈ between, s.auto = true) →
    ∃ place, between = Token.semicolonIf (t.lexeme.endsStatement = true) place
  /-- Where nothing is written, there is no token. -/
  nothing : (∀ s ∈ tokens, s.auto = true) → tokens = []

/-! ## Parts of items and of tokens -/

theorem lexemesOf_append (items more : List Item) :
    lexemesOf (items ++ more) = lexemesOf items ++ lexemesOf more := List.filterMap_append

theorem writtenLexemes_append (ts us : List Token) :
    writtenLexemes (ts ++ us) = writtenLexemes ts ++ writtenLexemes us := by
  unfold writtenLexemes
  rw [List.filter_append, List.map_append]

theorem writtenLexemes_cons {t : Token} (h : t.auto = false) (ts : List Token) :
    writtenLexemes (t :: ts) = t.lexeme :: writtenLexemes ts := by
  unfold writtenLexemes
  rw [List.filter_cons_of_pos (by rw [h]; rfl), List.map_cons]

theorem writtenLexemes_eq_nil {ts : List Token} :
    writtenLexemes ts = [] ↔ ∀ t ∈ ts, t.auto = true := by
  simp [writtenLexemes, List.filter_eq_nil_iff]

/-- There is a newline among items if there is one in the first or in the others. -/
theorem hasNewline_cons {item : Item} {items : List Item} :
    HasNewline (item :: items) ↔ '\n' ∈ item.text ∨ HasNewline items := by
  unfold HasNewline
  rw [List.flatMap_cons, List.mem_append]

theorem Token.semicolonIf_neg {condition : Prop} [Decidable condition] (h : ¬condition)
    (p : Position) : semicolonIf condition p = [] := if_neg h

/-- A semicolon by the rule is marked as such. -/
theorem Token.auto_of_mem_semicolonIf {condition : Prop} [Decidable condition] {p : Position}
    {t : Token} (mem : t ∈ semicolonIf condition p) : t.auto = true := by
  unfold semicolonIf at mem
  split at mem
  · rw [List.mem_singleton.1 mem]
  · cases mem

/-- Items with a lexeme among them are cut there. -/
theorem exists_of_lexemesOf_eq_cons {items : List Item} {w : Lexeme} {ws : List Lexeme}
    (h : lexemesOf items = w :: ws) :
    ∃ gap after, items = gap ++ .word w :: after ∧ lexemesOf gap = [] ∧ lexemesOf after = ws := by
  obtain ⟨gap, item, after, rfl, none, same, behind⟩ := List.filterMap_eq_cons_iff.1 h
  cases item with
  | word lexeme =>
    cases same
    exact ⟨gap, after, rfl, List.filterMap_eq_nil_iff.2 none, behind⟩
  | _ => cases same

/-- Items are cut before a lexeme where their lexemes are. -/
theorem exists_of_lexemesOf_eq_append {items : List Item} {vs ws : List Lexeme} {w : Lexeme}
    (h : lexemesOf items = vs ++ w :: ws) :
    ∃ before after, items = before ++ .word w :: after ∧ lexemesOf before = vs ∧
      lexemesOf after = ws := by
  obtain ⟨before, rest, rfl, inFront, further⟩ := List.filterMap_eq_append_iff.1 h
  obtain ⟨gap, after, rfl, wordless, behind⟩ := exists_of_lexemesOf_eq_cons further
  refine ⟨before ++ gap, after, (List.append_assoc ..).symm, ?_, behind⟩
  rw [lexemesOf_append, wordless, List.append_nil]
  exact inFront

/-- A list of tokens is cut at a written token in one way, so many written tokens being in front. -/
theorem append_cons_inj {front front' back back' : List Token} {t t' : Token}
    (same : front ++ t :: back = front' ++ t' :: back') (here : t.auto = false)
    (here' : t'.auto = false) (level : writtenLexemes front = writtenLexemes front') :
    front = front' ∧ t = t' ∧ back = back' := by
  induction front generalizing front' with
  | nil =>
    cases front' with
    | nil =>
      obtain ⟨token, rest⟩ := List.cons.inj same
      exact ⟨rfl, token, rest⟩
    | cons s front' =>
      obtain ⟨rfl, -⟩ := List.cons.inj same
      rw [writtenLexemes_cons here] at level
      cases level
  | cons s front ih =>
    cases front' with
    | nil =>
      obtain ⟨rfl, -⟩ := List.cons.inj same
      rw [writtenLexemes_cons here'] at level
      cases level
    | cons s' front' =>
      obtain ⟨rfl, rest⟩ := List.cons.inj same
      have level' : writtenLexemes front = writtenLexemes front' := by
        rw [← List.singleton_append, ← List.singleton_append (l := front'), writtenLexemes_append,
          writtenLexemes_append] at level
        exact List.append_cancel_left level
      obtain ⟨rfl, token, behind⟩ := ih rest level'
      exact ⟨rfl, token, behind⟩

/-- The same from the other side: tokens that stand for line ends reach up to the written one. -/
theorem append_cons_inj_of_auto {between between' back back' : List Token} {u u' : Token}
    (same : between ++ u :: back = between' ++ u' :: back') (here : u.auto = false)
    (here' : u'.auto = false) (auto : ∀ s ∈ between, s.auto = true)
    (auto' : ∀ s ∈ between', s.auto = true) : between = between' :=
  (append_cons_inj same here here'
    ((writtenLexemes_eq_nil.2 auto).trans (writtenLexemes_eq_nil.2 auto').symm)).1

/-! ## Items behind items -/

namespace Layout

/-- The end of a line is the rule applied to the last word of it. -/
theorem lineEnd_eq_semicolonIf (last : Option Lexeme) (p : Position) :
    lineEnd last p = Token.semicolonIf (last.any Lexeme.endsStatement = true) p := rfl

theorem writtenLexemes_lineEnd (last : Option Lexeme) (p : Position) :
    writtenLexemes (lineEnd last p) = [] := by
  rw [writtenLexemes, filter_lineEnd, List.map_nil]

/-- Some items write their lexemes, and the items behind them are laid out as they would be behind
any others. -/
theorem exists_tokens_append (p : Position) (last : Option Lexeme) (items more : List Item) :
    ∃ front p' last', (ofItems p last (items ++ more)).tokens =
        front ++ (ofItems p' last' more).tokens ∧
      writtenLexemes front = lexemesOf items := by
  induction items generalizing p last with
  | nil => exact ⟨[], p, last, rfl, rfl⟩
  | cons item items ih =>
    have newLine : ∃ front p' last',
        lineEnd last p ++ (ofItems (item.stop p) none (items ++ more)).tokens =
          front ++ (ofItems p' last' more).tokens ∧
        writtenLexemes front = lexemesOf items := by
      obtain ⟨front, p', last', tokens, written⟩ := ih (item.stop p) none
      refine ⟨lineEnd last p ++ front, p', last', ?_, ?_⟩
      · rw [tokens, List.append_assoc]
      · rw [writtenLexemes_append, writtenLexemes_lineEnd, written, List.nil_append]
    cases item with
    | blank c => exact ih _ last
    | newline => exact newLine
    | comment text =>
      rw [List.cons_append, ofItems]
      split
      · exact newLine
      · exact ih _ last
    | word lexeme =>
      obtain ⟨front, p', last', tokens, written⟩ := ih ((Item.word lexeme).stop p) (some lexeme)
      refine ⟨⟨lexeme, p, false⟩ :: front, p', last', ?_, ?_⟩
      · rw [List.cons_append, ofItems, withTokens, tokens]
        rfl
      · rw [writtenLexemes_cons rfl, written]
        rfl

/-- Items without a lexeme bring a semicolon if there is a newline among them and the last lexeme
before them ends a statement. Behind a newline no lexeme is on the line, so a second newline brings
none. -/
theorem exists_tokens_gap (p : Position) (last : Option Lexeme) {gap : List Item}
    (spaced : ∀ item ∈ gap, item.IsSpaced) (wordless : lexemesOf gap = []) (more : List Item) :
    ∃ p' place, (ofItems p last (gap ++ more)).tokens =
      Token.semicolonIf (last.any Lexeme.endsStatement = true ∧ HasNewline gap) place ++
        (ofItems p' (if HasNewline gap then none else last) more).tokens := by
  induction gap generalizing p last with
  | nil =>
    have none : ¬HasNewline [] := List.not_mem_nil
    refine ⟨p, p, ?_⟩
    rw [if_neg none, Token.semicolonIf_neg fun h => none h.2]
    rfl
  | cons item gap ih =>
    have behind := fun other mem => spaced other (List.mem_cons_of_mem _ mem)
    -- a line ends with this item
    have ends : '\n' ∈ item.text → lexemesOf gap = [] → ∃ p' place,
        lineEnd last p ++ (ofItems (item.stop p) none (gap ++ more)).tokens =
          Token.semicolonIf (last.any Lexeme.endsStatement = true ∧ HasNewline (item :: gap)) place ++
            (ofItems p' (if HasNewline (item :: gap) then none else last) more).tokens := by
      intro newline rest
      have here : HasNewline (item :: gap) := hasNewline_cons.2 (.inl newline)
      obtain ⟨p', place, tokens⟩ := ih (item.stop p) none behind rest
      refine ⟨p', p, ?_⟩
      rw [tokens, Token.semicolonIf_neg fun h => Bool.false_ne_true h.1, ite_self, if_pos here,
        lineEnd_eq_semicolonIf]
      simp only [here, and_true]
      rfl
    -- the line goes on behind this item
    have stays : '\n' ∉ item.text → lexemesOf gap = [] → ∃ p' place,
        (ofItems (item.stop p) last (gap ++ more)).tokens =
          Token.semicolonIf (last.any Lexeme.endsStatement = true ∧ HasNewline (item :: gap)) place ++
            (ofItems p' (if HasNewline (item :: gap) then none else last) more).tokens := by
      intro line rest
      have same : HasNewline (item :: gap) ↔ HasNewline gap :=
        hasNewline_cons.trans (or_iff_right line)
      simp only [same]
      exact ih (item.stop p) last behind rest
    cases item with
    | blank c =>
      have spacing : isSpacing c = true := spaced _ List.mem_cons_self
      refine stays (fun mem => ?_) wordless
      rw [← List.mem_singleton.1 mem] at spacing
      exact absurd spacing (by decide)
    | newline => exact ends List.mem_cons_self wordless
    | comment text =>
      rw [List.cons_append, ofItems]
      split
      · next newline => exact ends (List.contains_iff_mem.1 newline) wordless
      · next line => exact stays (fun mem => line (List.contains_iff_mem.2 mem)) wordless
    | word lexeme => cases wordless

/-- At the end of the text, items without a lexeme bring a semicolon with a newline or without. -/
theorem exists_tokens_end (p : Position) (last : Option Lexeme) {gap : List Item}
    (spaced : ∀ item ∈ gap, item.IsSpaced) (wordless : lexemesOf gap = []) :
    ∃ place, (ofItems p last gap).tokens =
      Token.semicolonIf (last.any Lexeme.endsStatement = true) place := by
  obtain ⟨p', place, tokens⟩ := exists_tokens_gap p last spaced wordless []
  rw [List.append_nil] at tokens
  by_cases newline : HasNewline gap
  · refine ⟨place, ?_⟩
    rw [tokens, if_pos newline]
    simp only [newline, and_true]
    exact List.append_nil _
  · refine ⟨p', ?_⟩
    rw [tokens, if_neg newline, Token.semicolonIf_neg fun h => newline h.2]
    rfl

/-! ## The rules -/

variable {items : List Item}

/-- The words that are written are those of the items: the rule adds no other. -/
theorem writtenLexemes_ofItems (p : Position) (last : Option Lexeme) (items : List Item) :
    writtenLexemes (ofItems p last items).tokens = lexemesOf items := by
  obtain ⟨front, p', last', tokens, written⟩ := exists_tokens_append p last items []
  rw [List.append_nil] at tokens
  rw [tokens, writtenLexemes_append, written, ofItems, writtenLexemes_lineEnd, List.append_nil]

/-- Between two words of the source stands what the rule gives for the gap between them. -/
theorem inside_ofItems (p : Position) (spaced : ∀ item ∈ items, item.IsSpaced)
    {front between back : List Token} {t u : Token}
    (tokens : (ofItems p none items).tokens = front ++ t :: (between ++ u :: back))
    (first : t.auto = false) (second : u.auto = false) (auto : ∀ s ∈ between, s.auto = true) :
    ∃ before gap after place,
      items = before ++ .word t.lexeme :: (gap ++ .word u.lexeme :: after) ∧
      lexemesOf before = writtenLexemes front ∧ lexemesOf gap = [] ∧
      lexemesOf after = writtenLexemes back ∧
      between = Token.semicolonIf (t.lexeme.endsStatement = true ∧ HasNewline gap) place := by
  have written := writtenLexemes_ofItems p none items
  rw [tokens, writtenLexemes_append, writtenLexemes_cons first, writtenLexemes_append,
    writtenLexemes_eq_nil.2 auto, writtenLexemes_cons second, List.nil_append] at written
  obtain ⟨before, behind, rfl, inFront, further⟩ := exists_of_lexemesOf_eq_append written.symm
  obtain ⟨gap, after, rfl, wordless, rest⟩ := exists_of_lexemesOf_eq_cons further
  obtain ⟨front', p₁, last, tokens₁, written₁⟩ := exists_tokens_append p none before
    (.word t.lexeme :: (gap ++ .word u.lexeme :: after))
  obtain ⟨p₂, place, tokens₂⟩ := exists_tokens_gap ((Item.word t.lexeme).stop p₁) (some t.lexeme)
    (fun item mem => spaced item (by simp [mem])) wordless (.word u.lexeme :: after)
  rw [tokens₁, ofItems, withTokens, tokens₂, ofItems] at tokens
  obtain ⟨-, -, between_eq⟩ := append_cons_inj tokens rfl first (written₁.trans inFront)
  have same := append_cons_inj_of_auto between_eq rfl second
    (fun s mem => Token.auto_of_mem_semicolonIf mem) auto
  exact ⟨before, gap, after, place, rfl, inFront, wordless, rest, same.symm⟩

/-- Before the first word the rule gives nothing. -/
theorem first_ofItems (p : Position) (spaced : ∀ item ∈ items, item.IsSpaced)
    {between back : List Token} {u : Token}
    (tokens : (ofItems p none items).tokens = between ++ u :: back) (first : u.auto = false)
    (auto : ∀ s ∈ between, s.auto = true) : between = [] := by
  have written := writtenLexemes_ofItems p none items
  rw [tokens, writtenLexemes_append, writtenLexemes_eq_nil.2 auto, writtenLexemes_cons first,
    List.nil_append] at written
  obtain ⟨gap, after, rfl, wordless, -⟩ := exists_of_lexemesOf_eq_cons written.symm
  obtain ⟨p', place, tokens'⟩ := exists_tokens_gap p none
    (fun item mem => spaced item (by simp [mem])) wordless (.word u.lexeme :: after)
  rw [Token.semicolonIf_neg fun h => Bool.false_ne_true h.1, ofItems, List.nil_append] at tokens'
  exact append_cons_inj_of_auto (tokens.symm.trans tokens') first rfl auto (List.forall_mem_nil _)

/-- Behind the last word the rule gives a semicolon if the word ends a statement. -/
theorem last_ofItems (p : Position) (spaced : ∀ item ∈ items, item.IsSpaced)
    {front between : List Token} {t : Token}
    (tokens : (ofItems p none items).tokens = front ++ t :: between) (last : t.auto = false)
    (auto : ∀ s ∈ between, s.auto = true) :
    ∃ place, between = Token.semicolonIf (t.lexeme.endsStatement = true) place := by
  have written := writtenLexemes_ofItems p none items
  rw [tokens, writtenLexemes_append, writtenLexemes_cons last, writtenLexemes_eq_nil.2 auto]
    at written
  obtain ⟨before, gap, rfl, inFront, wordless⟩ := exists_of_lexemesOf_eq_append written.symm
  obtain ⟨front', p₁, last', tokens₁, written₁⟩ :=
    exists_tokens_append p none before (.word t.lexeme :: gap)
  obtain ⟨place, tokens₂⟩ := exists_tokens_end ((Item.word t.lexeme).stop p₁) (some t.lexeme)
    (fun item mem => spaced item (by simp [mem])) wordless
  rw [tokens₁, ofItems, withTokens, tokens₂] at tokens
  obtain ⟨-, -, between_eq⟩ := append_cons_inj tokens rfl last (written₁.trans inFront)
  exact ⟨place, between_eq.symm⟩

/-- Without a word there is no semicolon. -/
theorem nothing_ofItems (p : Position) (spaced : ∀ item ∈ items, item.IsSpaced)
    (auto : ∀ s ∈ (ofItems p none items).tokens, s.auto = true) :
    (ofItems p none items).tokens = [] := by
  have wordless : lexemesOf items = [] := by
    rw [← writtenLexemes_ofItems p none items]
    exact writtenLexemes_eq_nil.2 auto
  obtain ⟨place, tokens⟩ := exists_tokens_end p none spaced wordless
  exact tokens.trans (Token.semicolonIf_neg Bool.false_ne_true place)

/-- Whatever blank lines, comments and literals a source has, the semicolons for its line ends stand
exactly where the rule has them. The items of the source are its text. -/
theorem isPunctuated {source : String} {layout : Layout}
    (h : Layout.ofSource source = .ok layout) :
    let items := (scan source.toList).1
    items.flatMap Item.text = source.toList ∧ IsPunctuated items layout.tokens := by
  obtain ⟨rfl, text⟩ := ofItems_scan_of_ofSource h
  have spaced : ∀ item ∈ (scan source.toList).1, item.IsSpaced :=
    fun item mem => isSpaced_of_mem_scan mem
  exact ⟨text, {
    written := writtenLexemes_ofItems .start none _
    inside := inside_ofItems .start spaced
    first := first_ofItems .start spaced
    last := last_ofItems .start spaced
    nothing := nothing_ofItems .start spaced }⟩

/-- Blank lines, a comment over two lines between lines, a comment over two lines inside a line, a raw
literal over two lines, and a comment at the end of the text. -/
theorem isPunctuated_lines :
    let source := "\n\nreturn\n\n// a\n/* b\n */\n(x /* c\n */)\n+ \x60\n\x60\n, y++ // d"
    ∃ layout, Layout.ofSource source = .ok layout ∧
      layout.tokens.map (fun t => if t.auto then "auto" else t.lexeme.text) =
        ["return", "auto", "(", "x", "auto", ")", "auto", "+", "\x60\n\x60", "auto", ",", "y", "++",
          "auto"] ∧
      IsPunctuated (scan source.toList).1 layout.tokens := by
  intro source
  have texts : (Layout.ofSource source).toOption.map (fun layout =>
      layout.tokens.map (fun t => if t.auto then "auto" else t.lexeme.text)) =
      some ["return", "auto", "(", "x", "auto", ")", "auto", "+", "\x60\n\x60", "auto", ",", "y",
        "++", "auto"] := by
    decide +kernel
  obtain ⟨layout, h, texts⟩ := exists_of_toOption_map texts
  exact ⟨layout, h, texts, (isPunctuated h).2⟩

end Layout

end Typings
