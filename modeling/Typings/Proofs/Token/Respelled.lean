import Typings.Proofs.Token.Scanned
import Typings.Proofs.Token.Spaced

/-!
# Tokens written anew

Written one after another, with a blank between neighbours on a line and a newline for each semicolon
that stands for a line end, the tokens of a source are a source of the same tokens, and comments are
none (`Layout.exists_ofSource_respelled`). Two things carry this. Each word of a source is an item by
itself, whatever stood behind it (`Lexeme.isWord_of_next`): in particular a number takes no further
character and a literal ends at its first closing quote. And the tokens of a source stand on lines as
newlines put them (`Token.Lined`): a semicolon for a line end stands exactly where the line ends
statements, so the newline written for it brings it about again, and no other newline is written.
-/

namespace Typings

/-! ## The text of tokens -/

namespace Token

/-- The characters for a token: a newline for a semicolon that stands for a line end. -/
def chars (t : Token) : List Char := if t.auto then ['\n'] else t.lexeme.text.toList

/-- What is between a token and those behind it: a blank, unless a newline is written there. -/
def seam (t : Token) : List Token → List Char
  | [] => []
  | u :: _ => if t.auto || u.auto then [] else [' ']

/-- What a token is, wherever it stands. -/
def what (t : Token) : Lexeme × Bool := (t.lexeme, t.auto)

end Token

/-- The characters of tokens that are written anew. -/
def respelledChars : List Token → List Char
  | [] => []
  | t :: ts => t.chars ++ t.seam ts ++ respelledChars ts

/-- Tokens written anew: a newline for each semicolon that stands for a line end, and a single blank
between other neighbours. -/
def respelled (ts : List Token) : String := String.ofList (respelledChars ts)

/-- The tokens of a source, with the one that ends the text. -/
def Layout.sequence (layout : Layout) : List Token := layout.tokens ++ [layout.last]

/-! ## Words by themselves -/

section Words

variable {cs inside rest : List Char}

theorem cutQuoted_alone {quote : Char} (h : cutQuoted quote cs = some (inside, rest)) :
    cutQuoted quote inside = some (inside, []) := by
  fun_induction cutQuoted quote cs generalizing inside with
  | case1 => cases h
  | case2 =>
    cases h
    simp [cutQuoted]
  | case3 => cases h
  | case4 => cases h
  | case5 d ds other line ih =>
    obtain ⟨⟨inside', rest'⟩, cut, same⟩ := Option.map_eq_some_iff.1 h
    cases same
    rw [cutQuoted, if_neg other, if_neg line, if_pos rfl]
    dsimp only
    rw [ih cut]
    rfl
  | case6 c cs other line plain ih =>
    obtain ⟨⟨inside', rest'⟩, cut, same⟩ := Option.map_eq_some_iff.1 h
    cases same
    rw [cutQuoted.eq_def]
    dsimp only
    rw [if_neg other, if_neg line, if_neg plain, ih cut]
    rfl

theorem cutRaw_alone {quote : Char} (h : cutRaw quote cs = some (inside, rest)) :
    cutRaw quote inside = some (inside, []) := by
  fun_induction cutRaw quote cs generalizing inside with
  | case1 => cases h
  | case2 =>
    cases h
    simp [cutRaw]
  | case3 c cs other ih =>
    obtain ⟨⟨inside', rest'⟩, cut, same⟩ := Option.map_eq_some_iff.1 h
    cases same
    simp [cutRaw, other, ih cut]

theorem cutNumber_alone (hex : Bool) (before : Char) (cs : List Char) :
    cutNumber hex before (cutNumber hex before cs).1 = ((cutNumber hex before cs).1, []) := by
  fun_induction cutNumber hex before cs with
  | case1 => rfl
  | case2 before c cs goes inside left hcut ih =>
    rw [hcut] at ih
    rw [cutNumber, if_pos goes, ih]
  | case3 => rfl

/-- What a number holds begins as what stands behind its first character, as far as tests of the next
character tell that only characters of a number pass. -/
theorem any_head?_cutNumber {p : Char → Bool} (inNumber : ∀ c, p c = true → continuesIdent c = true)
    (hex : Bool) (before : Char) (cs : List Char) :
    (cutNumber hex before cs).1.head?.any p = cs.head?.any p := by
  cases cs with
  | nil => rfl
  | cons c cs =>
    rw [cutNumber]
    split
    · rfl
    · next stays =>
      cases passes : p c with
      | false => simp [passes]
      | true => simp [inNumber c passes] at stays

theorem continuesIdent_of_isDigit {c : Char} (h : c.isDigit = true) : continuesIdent c = true := by
  simp only [Char.isDigit, Bool.and_eq_true, decide_eq_true_eq, UInt32.le_iff_toNat_le] at h
  obtain ⟨above, below⟩ : 48 ≤ c.toNat ∧ c.toNat ≤ 57 := h
  have numeral : Unicode.isNumeral c = true := by
    show (if c.toNat < 48 then false else decide (c.toNat ≤ 57) || _) = true
    rw [if_neg (Nat.not_lt.2 above), decide_eq_true below, Bool.true_or]
  rw [continuesIdent, Unicode.isAlphanumeric, numeral, Bool.or_true, Bool.or_true]

theorem hasHexMark_eq (c : Char) (cs : List Char) :
    hasHexMark (c :: cs) = (c == '0' && cs.head?.any fun d => d = 'x' || d = 'X') := by
  by_cases zero : c = '0'
  · subst zero
    cases cs <;> rfl
  · simp [hasHexMark, zero]

theorem hasHexMark_cutNumber (hex : Bool) (c : Char) (cs : List Char) :
    hasHexMark (c :: (cutNumber hex c cs).1) = hasHexMark (c :: cs) := by
  rw [hasHexMark_eq, hasHexMark_eq, any_head?_cutNumber]
  intro d mark
  obtain rfl | rfl : d = 'x' ∨ d = 'X' := by simpa using mark
  · rfl
  · rfl

/-- A number is an item by itself. -/
theorem Item.next_number_alone {c : Char} {cs : List Char}
    (number : (c.isDigit || (c = '.' && cs.head?.any Char.isDigit)) = true) :
    let inside := (cutNumber (hasHexMark (c :: cs)) c cs).1
    Item.next c inside = .ok
      (.word (.literal (LiteralKind.ofNumber (c :: inside)) (String.ofList (c :: inside))), []) := by
  intro inside
  have other : ∀ d : Char, d.isDigit = false → d ≠ '.' → c ≠ d := by
    rintro d noDigit noDot rfl
    simp [noDigit, noDot] at number
  have blank : isSpacing c = false := by
    simp [isSpacing, other ' ' rfl (by decide), other '\t' rfl (by decide), other '\r' rfl (by decide)]
  have slash : c ≠ '/' := other '/' rfl (by decide)
  have again : (c.isDigit || (c = '.' && inside.head?.any Char.isDigit)) = true := by
    rw [any_head?_cutNumber fun _ => continuesIdent_of_isDigit]
    exact number
  have mark : hasHexMark (c :: inside) = hasHexMark (c :: cs) := hasHexMark_cutNumber _ c cs
  unfold Item.next
  rw [if_neg (other '\n' rfl (by decide)), if_neg (by rw [blank]; decide), if_neg (by simp [slash]),
    if_neg (by simp [slash]), if_pos again, mark, cutNumber_alone]

/-- Each word that is an item is one by itself, whatever stood behind it. -/
theorem Lexeme.isWord_of_next {c : Char} {w : Lexeme} (h : Item.next c cs = .ok (.word w, rest)) :
    w.IsWord := by
  cases Item.starts_of_next h with
  | number begins => exact ⟨c, _, String.toList_ofList, Item.next_number_alone begins⟩
  | quoted quote cut =>
    have alone := cutQuoted_alone cut
    obtain ⟨rfl, rfl⟩ | ⟨rfl, rfl⟩ := quote
    · exact ⟨_, _, String.toList_ofList, congrArg (quotedItem .string '"' .openString) alone⟩
    · exact ⟨_, _, String.toList_ofList, congrArg (quotedItem .rune '\x27' .openRune) alone⟩
  | raw quote cut =>
    have alone := cutRaw_alone cut
    subst quote
    exact ⟨_, _, String.toList_ofList, congrArg (quotedItem .string '\x60' .openRawString) alone⟩
  | name double single begins =>
    unfold wordLexeme
    split
    · trivial
    · next free => exact ⟨c, _, String.toList_ofList, begins, List.all_takeWhile, free⟩
  | operator => trivial

/-- A word is an item before the end, and before a blank or a newline. -/
theorem Lexeme.IsWord.next_before {w : Lexeme} (h : w.IsWord)
    (ends : rest = [] ∨ ∃ s more, endsWord s ∧ rest = s :: more) :
    ∃ c cs, w.text.toList = c :: cs ∧ Item.next c (cs ++ rest) = .ok (.word w, rest) := by
  obtain ⟨c, cs, chars, alone⟩ := h.next .none
  refine ⟨c, cs, chars, ?_⟩
  rw [List.append_nil] at alone
  obtain rfl | ⟨s, more, stops, rfl⟩ := ends
  · rw [List.append_nil, alone]
  · exact Item.next_append stops (.inr fun _ same => by cases same) alone

end Words

/-! ## Tokens on their lines -/

/-- Tokens as line ends cut them, `last` being the last lexeme before them on their line, if there is
one: where the line ends a statement stands a semicolon for its end, and nowhere else. -/
inductive Token.Lined : Option Lexeme → List Token → Prop where
  | stop {last : Option Lexeme} : last.any Lexeme.endsStatement = false → Lined last []
  | line {last : Option Lexeme} {ts : List Token} (p : Position) :
      last.any Lexeme.endsStatement = true → Lined none ts →
      Lined last (⟨.op .semicolon, p, true⟩ :: ts)
  | word {last : Option Lexeme} {w : Lexeme} {ts : List Token} (p : Position) :
      w.IsWord → Lined (some w) ts → Lined last (⟨w, p, false⟩ :: ts)

/-- Behind a lexeme that ends no statement, the line goes on as a new one would. -/
theorem Token.Lined.of_none {last : Option Lexeme} {ts : List Token} (h : Lined none ts)
    (goes : last.any Lexeme.endsStatement = false) : Lined last ts := by
  cases h with
  | stop => exact .stop goes
  | line p ends => cases ends
  | word p isWord behind => exact .word p isWord behind

namespace Layout

theorem lined_lineEnd {ts : List Token} (h : Token.Lined none ts) (last : Option Lexeme)
    (p : Position) : Token.Lined last (lineEnd last p ++ ts) := by
  unfold lineEnd
  split
  · next ends => exact .line p ends h
  · next goes => exact h.of_none (Bool.eq_false_iff.2 goes)

/-- Items are laid out on lines. -/
theorem lined_ofItems {items : List Item} (words : ∀ w, .word w ∈ items → w.IsWord) (p : Position)
    (last : Option Lexeme) : Token.Lined last (ofItems p last items).tokens := by
  induction items generalizing p last with
  | nil =>
    rw [ofItems, ← List.append_nil (lineEnd last p)]
    exact lined_lineEnd (.stop rfl) last p
  | cons item items ih =>
    have behind := ih fun w mem => words w (List.mem_cons_of_mem _ mem)
    cases item with
    | blank c => exact behind _ last
    | newline => exact lined_lineEnd (behind _ none) last p
    | comment text =>
      rw [ofItems]
      split
      · exact lined_lineEnd (behind _ none) last p
      · exact behind _ last
    | word w => exact .word p (words w List.mem_cons_self) (behind _ (some w))

theorem lined_of_ofSource {source : String} {layout : Layout} (h : ofSource source = .ok layout) :
    Token.Lined none layout.tokens := by
  unfold ofSource at h
  dsimp only at h
  split at h
  · cases h
    refine lined_ofItems (fun w mem => ?_) .start none
    obtain ⟨c, cs, rest, next⟩ := exists_next_of_mem_scan mem
    exact Lexeme.isWord_of_next next
  · cases h

end Layout

/-! ## The layout of the text -/

/-- Behind a word, the text goes on with a blank or a newline, or ends. -/
theorem Token.seam_cases {t : Token} (written : t.auto = false) (ts : List Token) :
    t.seam ts = [' '] ∨
      t.seam ts = [] ∧ (respelledChars ts = [] ∨ ∃ more, respelledChars ts = '\n' :: more) := by
  cases ts with
  | nil => exact .inr ⟨rfl, .inl rfl⟩
  | cons u us =>
    cases auto : u.auto with
    | false => exact .inl (by simp [seam, written, auto])
    | true =>
      refine .inr ⟨by simp [seam, auto], .inr ⟨u.seam us ++ respelledChars us, ?_⟩⟩
      simp [respelledChars, chars, auto]

/-- The characters are laid out without comments as tokens like these, `last` being the last lexeme
before them on their line, if there is one. -/
def LaidOutAs (last : Option Lexeme) (cs : List Char) (ts : List Token) : Prop :=
  ∃ items, scan cs = (items, none) ∧ ∀ p, (Layout.ofItems p last items).comments = [] ∧
    (Layout.ofItems p last items).tokens.map Token.what = ts.map Token.what

namespace LaidOutAs

variable {last : Option Lexeme} {cs : List Char} {ts : List Token}

theorem nothing (goes : last.any Lexeme.endsStatement = false) : LaidOutAs last [] [] := by
  refine ⟨[], by rw [scan.eq_def], fun p => ⟨rfl, ?_⟩⟩
  simp [Layout.ofItems, lineEnd, goes]

theorem newline (h : LaidOutAs none cs ts) (ends : last.any Lexeme.endsStatement = true)
    (p : Position) : LaidOutAs last ('\n' :: cs) (⟨.op .semicolon, p, true⟩ :: ts) := by
  obtain ⟨items, scanned, laid⟩ := h
  have next : Item.next '\n' cs = .ok (.newline, cs) := rfl
  refine ⟨.newline :: items, by rw [scan_cons next, scanned], fun q => ⟨(laid _).1, ?_⟩⟩
  rw [Layout.ofItems, Layout.withTokens, lineEnd, if_pos ends, List.map_append, (laid _).2]
  rfl

theorem blank (h : LaidOutAs last cs ts) : LaidOutAs last (' ' :: cs) ts := by
  obtain ⟨items, scanned, laid⟩ := h
  have next : Item.next ' ' cs = .ok (.blank ' ', cs) := rfl
  exact ⟨.blank ' ' :: items, by rw [scan_cons next, scanned], fun p => laid _⟩

theorem word {w : Lexeme} (h : LaidOutAs (some w) cs ts) (isWord : w.IsWord)
    (ends : cs = [] ∨ ∃ s more, endsWord s ∧ cs = s :: more) (p : Position) :
    LaidOutAs last (w.text.toList ++ cs) (⟨w, p, false⟩ :: ts) := by
  obtain ⟨items, scanned, laid⟩ := h
  obtain ⟨c, inside, chars, next⟩ := isWord.next_before ends
  refine ⟨.word w :: items, ?_, fun q => ⟨(laid _).1, ?_⟩⟩
  · rw [chars, List.cons_append, scan_cons next, scanned]
  · rw [Layout.ofItems, Layout.withTokens, List.map_append, (laid _).2]
    rfl

/-- The layout of such a text. -/
theorem exists_ofSource (h : LaidOutAs none cs ts) :
    ∃ layout, Layout.ofSource (String.ofList cs) = .ok layout ∧ layout.comments = [] ∧
      layout.tokens.map Token.what = ts.map Token.what := by
  obtain ⟨items, scanned, laid⟩ := h
  refine ⟨Layout.ofItems .start none items, ?_, laid .start⟩
  rw [Layout.ofSource, String.toList_ofList, scanned]

end LaidOutAs

/-- Tokens on lines are laid out as they are from the text that is written for them, whether the mark
of the end is among those that are written or not. -/
theorem Token.Lined.laidOutAs {last : Option Lexeme} {ts ends : List Token} (h : Lined last ts)
    (isEnd : respelledChars ends = []) : LaidOutAs last (respelledChars (ts ++ ends)) ts := by
  induction h with
  | stop goes =>
    rw [List.nil_append, isEnd]
    exact .nothing goes
  | @line last ts p here _ ih =>
    have text : respelledChars (⟨.op .semicolon, p, true⟩ :: ts ++ ends) =
        '\n' :: respelledChars (ts ++ ends) := by
      rw [List.cons_append, respelledChars]
      cases ts ++ ends <;> rfl
    rw [text]
    exact ih.newline here p
  | @word last w ts p isWord _ ih =>
    rw [List.cons_append, respelledChars, List.append_assoc]
    rcases seam_cases (t := ⟨w, p, false⟩) rfl (ts ++ ends) with blank | ⟨none, goesOn⟩
    · rw [blank]
      exact ih.blank.word isWord (.inr ⟨' ', _, .inl rfl, rfl⟩) p
    · rw [none]
      refine ih.word isWord (goesOn.imp_right ?_) p
      rintro ⟨more, text⟩
      exact ⟨'\n', more, .inr rfl, text⟩

namespace Layout

/-- Tokens respell: the tokens of a source, written anew with a newline for each semicolon that stands
for a line end and a single blank between other neighbours, are a source without comments and with the
same tokens. The mark of the end, which has no characters, may be counted among the neighbours or
left out. -/
theorem exists_ofSource_respelled {source : String} {layout : Layout}
    (h : ofSource source = .ok layout) :
    ∀ ts, ts = layout.sequence ∨ ts = layout.tokens → ∃ again,
      ofSource (respelled ts) = .ok again ∧ again.comments = [] ∧
      again.sequence.map (fun t => (t.lexeme, t.auto)) =
        layout.sequence.map (fun t => (t.lexeme, t.auto)) := by
  have lined := lined_of_ofSource h
  intro ts among
  obtain ⟨ends, isEnd, rfl⟩ : ∃ ends, respelledChars ends = [] ∧ ts = layout.tokens ++ ends := by
    rcases among with rfl | rfl
    · exact ⟨[layout.last], rfl, rfl⟩
    · exact ⟨[], rfl, (List.append_nil _).symm⟩
  obtain ⟨again, laid, comments, tokens⟩ := (lined.laidOutAs isEnd).exists_ofSource
  refine ⟨again, laid, comments, ?_⟩
  rw [sequence, sequence, List.map_append, List.map_append]
  exact congrArg (· ++ _) tokens

/-- Numbers with signs and dots, a raw literal over two lines, operators cut from longer runs, a
keyword that ends a line, and comments, one of which ends a line. -/
theorem exists_ofSource_respelled_mixed :
    let source := "x:=-.5e-3i+0x1p+2//sum\nreturn/*a\n*/y&^=\x60\n\x60<<<\"\\\"\" \t\r// end"
    ∃ layout again, ofSource source = .ok layout ∧
      respelled layout.sequence = "x := - .5e-3i + 0x1p+2\nreturn\ny &^= \x60\n\x60 << < \"\\\"\"\n" ∧
      ofSource (respelled layout.sequence) = .ok again ∧ again.comments = [] ∧
      again.sequence.map (fun t => (t.lexeme, t.auto)) =
        layout.sequence.map (fun t => (t.lexeme, t.auto)) := by
  intro source
  have text : (ofSource source).toOption.map (fun layout => respelled layout.sequence) =
      some "x := - .5e-3i + 0x1p+2\nreturn\ny &^= \x60\n\x60 << < \"\\\"\"\n" := by
    decide +kernel
  obtain ⟨layout, laid, text⟩ := exists_of_toOption_map text
  obtain ⟨again, h⟩ := exists_ofSource_respelled laid layout.sequence (.inl rfl)
  exact ⟨layout, again, laid, text, h⟩

end Layout

end Typings
