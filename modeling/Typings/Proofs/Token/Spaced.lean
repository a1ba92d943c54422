import Typings.Token.Layout

/-!
# Words with blanks between them

Where a blank stands behind a word, the item there is the word itself (`Lexeme.IsWord.next`):
none of the items goes on across a blank unless it holds one already. So the layout of words with
single blanks between them has these words as its tokens, and a semicolon at the end where one is
due (`Layout.ofSource_spaced`).
-/

namespace Typings

/-- The lexeme stands for the text that it has: a name is an identifier that is not reserved, and a
literal is one by itself. -/
def Lexeme.IsWord : Lexeme → Prop
  | .ident name => ∃ c cs, name.toList = c :: cs ∧ beginsIdent c = true ∧
      cs.all continuesIdent = true ∧ Keyword.ofText? name = none
  | .literal kind text => ∃ c cs, text.toList = c :: cs ∧
      Item.next c cs = .ok (.word (.literal kind text), [])
  | .keyword _ | .op _ => True
  | .eof => False

/-- Lexemes on one line, with a blank between neighbours. -/
def spaced (ws : List Lexeme) : String := " ".intercalate (ws.map Lexeme.text)

/-! ## Words by themselves -/

/-- What begins an identifier is at or behind the letter A. -/
theorem le_of_beginsIdent {c : Char} (h : beginsIdent c = true) : 65 ≤ c.toNat := by
  refine Nat.le_of_not_lt fun lt => ?_
  have letter : Unicode.isLetter c = false := by
    show (if c.toNat < 65 then false else _) = false
    exact if_pos lt
  have under : c ≠ '_' := by
    rintro rfl
    exact absurd lt (by decide)
  simp [beginsIdent, letter, under] at h

theorem isDigit_of_beginsIdent {c : Char} (h : beginsIdent c = true) : c.isDigit = false := by
  have far := le_of_beginsIdent h
  cases digit : c.isDigit with
  | false => rfl
  | true =>
    simp only [Char.isDigit, Bool.and_eq_true, decide_eq_true_eq, UInt32.le_iff_toNat_le] at digit
    change _ ∧ c.toNat ≤ 57 at digit
    omega

/-- What follows a word on its line: nothing, or a blank. -/
inductive WordEnd : List Char → Prop
  | none : WordEnd []
  | blank (cs : List Char) : WordEnd (' ' :: cs)

/-- What begins as an identifier is a word. -/
theorem Item.next_word {c : Char} (begins : beginsIdent c = true) (cs : List Char) :
    Item.next c cs = .ok (.word (wordLexeme (String.ofList (c :: cs.takeWhile continuesIdent))),
      cs.dropWhile continuesIdent) := by
  have other : ∀ d : Char, beginsIdent d = false → c ≠ d := by
    rintro d stops rfl
    exact Bool.false_ne_true (stops.symm.trans begins)
  have blank : isSpacing c = false := by
    simp [isSpacing, other ' ' rfl, other '\t' rfl, other '\r' rfl]
  simp [Item.next, other '\n' rfl, blank, other '/' rfl, other '.' rfl, isDigit_of_beginsIdent begins,
    other '"' rfl, other '\x60' rfl, other '\x27' rfl, begins]

theorem Item.next_ident {c : Char} {cs rest : List Char} (h : beginsIdent c = true)
    (continues : cs.all continuesIdent = true) (ends : WordEnd rest) :
    Item.next c (cs ++ rest) = .ok (.word (wordLexeme (String.ofList (c :: cs))), rest) := by
  have inside : (cs ++ rest).takeWhile continuesIdent = cs := by
    rw [List.takeWhile_append_of_pos (List.all_eq_true.1 continues)]
    cases ends with
    | none => exact List.append_nil cs
    | blank rest => exact List.append_nil cs
  have behind : (cs ++ rest).dropWhile continuesIdent = rest := by
    rw [List.dropWhile_append_of_pos (List.all_eq_true.1 continues)]
    cases ends <;> rfl
  rw [next_word h, inside, behind]

theorem Item.next_keyword (keyword : Keyword) {rest : List Char} (ends : WordEnd rest) :
    ∃ c cs, keyword.text.toList = c :: cs ∧
      Item.next c (cs ++ rest) = .ok (.word (.keyword keyword), rest) := by
  obtain ⟨c, cs, chars, begins, continues, word⟩ : ∃ c cs, keyword.text.toList = c :: cs ∧
      beginsIdent c = true ∧ cs.all continuesIdent = true ∧
      wordLexeme (String.ofList (c :: cs)) = .keyword keyword := by
    cases keyword <;> exact ⟨_, _, rfl, rfl, rfl, rfl⟩
  exact ⟨c, cs, chars, by rw [Item.next_ident begins continues ends, word]⟩

theorem Item.next_operator (operator : Operator) {rest : List Char} (ends : WordEnd rest) :
    ∃ c cs, operator.text.toList = c :: cs ∧
      Item.next c (cs ++ rest) = .ok (.word (.op operator), rest) := by
  cases ends <;> cases operator <;> exact ⟨_, _, rfl, rfl⟩

/-! ## Literals before a blank -/

section Literals

variable {cs rest inside : List Char}

/-- A character that ends each word before it: a space or a newline. -/
def endsWord (c : Char) : Prop := c = ' ' ∨ c = '\n'

theorem cutNumber_append {s : Char} (ends : endsWord s) (hex : Bool) (before : Char) :
    cutNumber hex before (cs ++ s :: rest) =
      ((cutNumber hex before cs).1, (cutNumber hex before cs).2 ++ s :: rest) := by
  fun_induction cutNumber hex before cs with
  | case1 => obtain rfl | rfl := ends <;> rfl
  | case2 before c cs goes inside left hcut ih =>
    rw [List.cons_append, cutNumber, if_pos goes, ih, hcut]
  | case3 before c cs stays => rw [List.cons_append, cutNumber, if_neg stays]

theorem cutBlock_append {left : List Char} (h : cutBlock cs = some (inside, left)) :
    cutBlock (cs ++ rest) = some (inside, left ++ rest) := by
  fun_induction cutBlock cs generalizing inside with
  | case1 =>
    cases h
    rfl
  | case2 c cs goes ih =>
    obtain ⟨⟨inside', left'⟩, cut, same⟩ := Option.map_eq_some_iff.1 h
    cases same
    cases cs with
    | nil => cases cut
    | cons d ds =>
      have further := ih cut
      rw [List.cons_append] at further ⊢
      rw [List.cons_append, cutBlock, further]
      · rfl
      · intro cs' star same
        exact goes ds star (by rw [(List.cons.inj same).1])
  | case3 => cases h

theorem cutQuoted_append {quote : Char} {left : List Char}
    (h : cutQuoted quote cs = some (inside, left)) :
    cutQuoted quote (cs ++ rest) = some (inside, left ++ rest) := by
  fun_induction cutQuoted quote cs generalizing inside with
  | case1 => cases h
  | case2 cs =>
    cases h
    rw [List.cons_append, cutQuoted.eq_def]
    exact if_pos rfl
  | case3 => cases h
  | case4 => cases h
  | case5 d ds other line ih =>
    obtain ⟨⟨inside', left'⟩, cut, same⟩ := Option.map_eq_some_iff.1 h
    cases same
    rw [List.cons_append, List.cons_append, cutQuoted, if_neg other, if_neg line, if_pos rfl,
      ih cut]
    rfl
  | case6 c cs other line plain ih =>
    obtain ⟨⟨inside', left'⟩, cut, same⟩ := Option.map_eq_some_iff.1 h
    cases same
    rw [List.cons_append, cutQuoted.eq_def]
    dsimp only
    rw [if_neg other, if_neg line, if_neg plain, ih cut]
    rfl

theorem cutRaw_append {quote : Char} {left : List Char}
    (h : cutRaw quote cs = some (inside, left)) :
    cutRaw quote (cs ++ rest) = some (inside, left ++ rest) := by
  fun_induction cutRaw quote cs generalizing inside with
  | case1 => cases h
  | case2 cs =>
    cases h
    simp [cutRaw]
  | case3 c cs other ih =>
    obtain ⟨⟨inside', left'⟩, cut, same⟩ := Option.map_eq_some_iff.1 h
    cases same
    simp [cutRaw, other, ih cut]

/-- A test of the next character does not see a character that fails it. -/
theorem any_head?_append {s : Char} {p : Char → Bool} (fails : p s = false) :
    (cs ++ s :: rest).head?.any p = cs.head?.any p := by
  cases cs with
  | nil => exact fails
  | cons => rfl

theorem head?_append_eq_some {s d : Char} (other : s ≠ d) :
    (cs ++ s :: rest).head? = some d ↔ cs.head? = some d := by
  cases cs with
  | nil =>
    constructor
    · intro same
      exact absurd (Option.some.inj same) other
    · exact nofun
  | cons => rfl

theorem hasHexMark_append {s c : Char} (ends : endsWord s) :
    hasHexMark (c :: (cs ++ s :: rest)) = hasHexMark (c :: cs) := by
  by_cases zero : c = '0'
  · subst zero
    cases cs with
    | nil => obtain rfl | rfl := ends <;> rfl
    | cons => rfl
  · simp [hasHexMark, zero]

theorem takeWhile_append_stop {s : Char} {p : Char → Bool} (stops : p s = false) :
    (cs ++ s :: rest).takeWhile p = cs.takeWhile p := by
  induction cs with
  | nil => simp [stops]
  | cons c cs ih => simp only [List.cons_append, List.takeWhile_cons, ih]

theorem dropWhile_append_stop {s : Char} {p : Char → Bool} (stops : p s = false) :
    (cs ++ s :: rest).dropWhile p = cs.dropWhile p ++ s :: rest := by
  induction cs with
  | nil => simp [stops]
  | cons c cs ih =>
    simp only [List.cons_append, List.dropWhile_cons, ih]
    split <;> rfl

/-- A character that a word does not hold does not make it the start of a text. -/
theorem isPrefixOf_append {s : Char} {word : List Char} (other : s ∉ word) :
    word.isPrefixOf (cs ++ s :: rest) = word.isPrefixOf cs := by
  induction word generalizing cs with
  | nil => rfl
  | cons d word ih =>
    cases cs with
    | nil =>
      have ne : d ≠ s := fun same => other (same ▸ List.mem_cons_self)
      simp [List.isPrefixOf, ne]
    | cons c cs => simp [List.isPrefixOf, ih fun mem => other (List.mem_cons_of_mem _ mem)]

theorem atStart?_append {s : Char} (ends : endsWord s) :
    Operator.atStart? (cs ++ s :: rest) = Operator.atStart? cs := by
  unfold Operator.atStart?
  congr 1
  funext operator
  apply isPrefixOf_append
  obtain rfl | rfl := ends <;> cases operator <;> decide

theorem quotedItem_append {kind : LiteralKind} {quote : Char} {cause : ScanCause}
    {cut cut' : Option (List Char × List Char)} {item : Item} {left : List Char}
    (grows : ∀ inside left, cut = some (inside, left) → cut' = some (inside, left ++ rest))
    (h : quotedItem kind quote cause cut = .ok (item, left)) :
    quotedItem kind quote cause cut' = .ok (item, left ++ rest) := by
  cases cut with
  | none => cases h
  | some pair =>
    obtain ⟨inside, left⟩ := pair
    cases h
    rw [grows inside left rfl]
    rfl

/-- An item before the end of the text stands before a newline as well, and before a blank unless it
is a comment. -/
theorem Item.next_append {s c : Char} {item : Item} {left : List Char} (ends : endsWord s)
    (other : s = '\n' ∨ ∀ text, item ≠ .comment text) (h : Item.next c cs = .ok (item, left)) :
    Item.next c (cs ++ s :: rest) = .ok (item, left ++ s :: rest) := by
  have slash : decide ((cs ++ s :: rest).head? = some '/') = decide (cs.head? = some '/') :=
    decide_eq_decide.2 (head?_append_eq_some (by obtain rfl | rfl := ends <;> decide))
  have star : decide ((cs ++ s :: rest).head? = some '*') = decide (cs.head? = some '*') :=
    decide_eq_decide.2 (head?_append_eq_some (by obtain rfl | rfl := ends <;> decide))
  have digit : (cs ++ s :: rest).head?.any Char.isDigit = cs.head?.any Char.isDigit :=
    any_head?_append (by obtain rfl | rfl := ends <;> rfl)
  revert h
  unfold Item.next
  rw [slash, star, digit, hasHexMark_append ends]
  -- The two texts now stand under the same tests, so that one split is for both.
  split
  · rintro ⟨⟩
    rfl
  split
  · rintro ⟨⟩
    rfl
  split
  · rintro ⟨⟩
    obtain rfl : s = '\n' := other.resolve_right fun none => none _ rfl
    rw [takeWhile_append_stop (by decide), dropWhile_append_stop (by decide)]
  split
  · next block =>
    obtain ⟨-, ds, rfl⟩ : c = '/' ∧ ∃ ds, cs = '*' :: ds := by
      simpa [List.head?_eq_some_iff] using block
    rw [List.cons_append, List.tail_cons, List.tail_cons]
    cases cut : cutBlock ds with
    | none => exact nofun
    | some both =>
      rw [cutBlock_append cut]
      rintro ⟨⟩
      rfl
  split
  · rw [cutNumber_append ends]
    rintro ⟨⟩
    rfl
  split
  · exact quotedItem_append fun _ _ cut => cutQuoted_append cut
  split
  · exact quotedItem_append fun _ _ cut => cutRaw_append cut
  split
  · exact quotedItem_append fun _ _ cut => cutQuoted_append cut
  split
  · have stops : continuesIdent s = false := by obtain rfl | rfl := ends <;> rfl
    rw [takeWhile_append_stop stops, dropWhile_append_stop stops]
    rintro ⟨⟩
    rfl
  · rw [← List.cons_append, atStart?_append ends]
    cases found : Operator.atStart? (c :: cs) with
    | none => exact nofun
    | some operator =>
      rintro ⟨⟩
      have within := congrArg List.length (Operator.text_append_drop found)
      dsimp only
      rw [List.drop_append_of_le_length (by rw [← within, List.length_append]; omega)]

end Literals

/-- A word before a blank, or alone, is an item. -/
theorem Lexeme.IsWord.next {w : Lexeme} (h : w.IsWord) {rest : List Char} (ends : WordEnd rest) :
    ∃ c cs, w.text.toList = c :: cs ∧ Item.next c (cs ++ rest) = .ok (.word w, rest) := by
  cases w with
  | ident name =>
    obtain ⟨c, cs, chars, begins, continues, free⟩ := h
    refine ⟨c, cs, chars, ?_⟩
    have word : wordLexeme (String.ofList (c :: cs)) = .ident name := by
      rw [← chars, String.ofList_toList, wordLexeme, free]
    rw [Item.next_ident begins continues ends, word]
  | keyword keyword => exact Item.next_keyword keyword ends
  | literal =>
    obtain ⟨c, cs, chars, alone⟩ := h
    refine ⟨c, cs, chars, ?_⟩
    cases ends with
    | none => rw [List.append_nil, alone]
    | blank rest => exact Item.next_append (.inl rfl) (.inr fun _ same => by cases same) alone
  | op operator => exact Item.next_operator operator ends
  | eof => cases h

/-! ## The layout -/

theorem scan_cons {c : Char} {cs rest : List Char} {item : Item}
    (h : Item.next c cs = .ok (item, rest)) :
    scan (c :: cs) = (item :: (scan rest).1, (scan rest).2) := by
  rw [scan]
  split
  · next here =>
    rw [h] at here
    cases here
  · next here =>
    rw [h] at here
    cases here
    rfl

/-- Words with blanks between them are the items of their text. -/
theorem scan_spaced {ws : List Lexeme} (words : ∀ w ∈ ws, w.IsWord) :
    scan (spaced ws).toList = ((ws.map Item.word).intersperse (.blank ' '), none) := by
  induction ws with
  | nil =>
    rw [scan.eq_def]
    rfl
  | cons w ws ih =>
    have later := ih fun v mem => words v (List.mem_cons_of_mem _ mem)
    cases ws with
    | nil =>
      obtain ⟨c, cs, chars, next⟩ := (words w (List.mem_cons_self ..)).next .none
      have text : (spaced [w]).toList = c :: cs := chars
      rw [List.append_nil] at next
      rw [text, scan_cons next, scan.eq_def]
      rfl
    | cons v ws =>
      obtain ⟨c, cs, chars, next⟩ := (words w (List.mem_cons_self ..)).next
        (.blank (spaced (v :: ws)).toList)
      have text : (spaced (w :: v :: ws)).toList = c :: (cs ++ ' ' :: (spaced (v :: ws)).toList) := by
        rw [spaced, List.map_cons, List.map_cons, String.intercalate_cons_cons, String.toList_append,
          String.toList_append, chars]
        simp [spaced]
      have blank : Item.next ' ' (spaced (v :: ws)).toList =
        .ok (.blank ' ', (spaced (v :: ws)).toList) := rfl
      rw [text, scan_cons next, scan_cons blank, later]
      rfl

theorem lineEnd_semis (last : Option Lexeme) (p : Position) :
    ∀ w ∈ (lineEnd last p).map Token.lexeme, w = .op .semicolon := by
  unfold lineEnd
  split
  · exact List.forall_mem_singleton.2 rfl
  · exact List.forall_mem_nil _

/-- The tokens of words are these words, and perhaps a semicolon at the end. -/
theorem Layout.ofItems_words (ws : List Lexeme) (p : Position) (last : Option Lexeme) :
    (ofItems p last ((ws.map Item.word).intersperse (.blank ' '))).comments = [] ∧
    ∃ semis, (ofItems p last ((ws.map Item.word).intersperse (.blank ' '))).tokens.map Token.lexeme =
      ws ++ semis ∧ ∀ w ∈ semis, w = .op .semicolon := by
  induction ws generalizing p last with
  | nil => exact ⟨rfl, _, rfl, lineEnd_semis last p⟩
  | cons w ws ih =>
    cases ws with
    | nil => exact ⟨rfl, _, rfl, lineEnd_semis (some w) ((Item.word w).stop p)⟩
    | cons v ws =>
      obtain ⟨comments, semis, tokens, isSemi⟩ :=
        ih ((Item.blank ' ').stop ((Item.word w).stop p)) (some w)
      exact ⟨comments, semis, congrArg (w :: ·) tokens, isSemi⟩

/-- The layout of words with blanks between them. -/
theorem Layout.ofSource_spaced {ws : List Lexeme} (words : ∀ w ∈ ws, w.IsWord) :
    ∃ layout semis, Layout.ofSource (spaced ws) = .ok layout ∧ layout.comments = [] ∧
      layout.tokens.map Token.lexeme = ws ++ semis ∧ ∀ w ∈ semis, w = .op .semicolon := by
  obtain ⟨comments, semis, tokens, isSemi⟩ := Layout.ofItems_words ws .start none
  refine ⟨_, semis, ?_, comments, tokens, isSemi⟩
  unfold Layout.ofSource
  rw [scan_spaced words]

end Typings
