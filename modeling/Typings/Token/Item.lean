import Typings.Token.Basic
import Typings.Unicode.Numeral
import Typings.Text.Quoted

/-!
# Items of a source text

Cut at its seams, a source text is a sequence of items: blanks, newlines, comments and lexemes, each
the longest that can stand at its place. What is shown of items goes by how they stand at the start
of a text (`Item.Starts`), which is read off `Item.next` once (`Item.starts_of_next`). Scanning loses
nothing: the characters of the items, one after another, are the text (`Item.next_text`, `scan_text`).
-/

namespace Typings

/-- Why no item can stand at a place. -/
inductive ScanCause where
  | openComment
  | openString
  | openRawString
  | openRune
  | unexpected (c : Char)
  deriving DecidableEq, Repr

/-- A cause in words. -/
def ScanCause.message : ScanCause → String
  | .openComment => "comment not terminated"
  | .openString => "string literal not terminated"
  | .openRawString => "raw string literal not terminated"
  | .openRune => "rune literal not terminated"
  | .unexpected c => "unexpected character: " ++ Text.quoted (String.singleton c)

/-- A piece of source text. A blank is a space, a tab or a carriage return. -/
inductive Item where
  | blank (c : Char)
  | newline
  | comment (text : String)
  | word (lexeme : Lexeme)
  deriving DecidableEq, Repr

/-- The characters of an item. -/
def Item.text : Item → List Char
  | .blank c => [c]
  | .newline => ['\n']
  | .comment text => text.toList
  | .word lexeme => lexeme.text.toList

/-! ## Character classes -/

/-- A space, a tab or a carriage return. -/
def isSpacing (c : Char) : Bool := c = ' ' || c = '\t' || c = '\r'

/-- A character that begins an identifier. -/
def beginsIdent (c : Char) : Bool := c = '_' || Unicode.isLetter c

/-- A character inside an identifier or a number. -/
def continuesIdent (c : Char) : Bool := c = '_' || Unicode.isAlphanumeric c

/-! ## What follows the first character -/

/-- Cutting off a block comment behind its opening mark, closing mark included. -/
def cutBlock : List Char → Option (List Char × List Char)
  | '*' :: '/' :: cs => some (['*', '/'], cs)
  | c :: cs => (cutBlock cs).map fun (inside, rest) => (c :: inside, rest)
  | [] => none

/-- Cutting off a literal behind its opening quote, closing quote included. A backslash takes the
character after it along, whatever that is; a bare newline ends the attempt. -/
def cutQuoted (quote : Char) : List Char → Option (List Char × List Char)
  | [] => none
  | c :: cs =>
    if c = quote then some ([c], cs)
    else if c = '\n' then none
    else if c = '\\' then
      match cs with
      | [] => none
      | d :: ds => (cutQuoted quote ds).map fun (inside, rest) => (c :: d :: inside, rest)
    else (cutQuoted quote cs).map fun (inside, rest) => (c :: inside, rest)

/-- Cutting off a literal without escapes behind its opening quote, closing quote included. -/
def cutRaw (quote : Char) : List Char → Option (List Char × List Char)
  | [] => none
  | c :: cs =>
    if c = quote then some ([c], cs)
    else (cutRaw quote cs).map fun (inside, rest) => (c :: inside, rest)

/-- The text begins as a hexadecimal number. -/
def hasHexMark : List Char → Bool
  | '0' :: c :: _ => c = 'x' || c = 'X'
  | _ => false

/-- A sign after this character belongs to the number: it follows the mark of an exponent. -/
def takesSign (hex : Bool) (c : Char) : Bool :=
  c = 'p' || c = 'P' || (!hex && (c = 'e' || c = 'E'))

/-- Cutting off what continues a number after its character `before`. -/
def cutNumber (hex : Bool) (before : Char) : List Char → List Char × List Char
  | [] => ([], [])
  | c :: cs =>
    if continuesIdent c || c = '.' || ((c = '+' || c = '-') && takesSign hex before) then
      let (inside, rest) := cutNumber hex c cs
      (c :: inside, rest)
    else ([], c :: cs)

/-- The kind of a number, told from the characters it holds. -/
def LiteralKind.ofNumber (number : List Char) : LiteralKind :=
  if number.getLast? = some 'i' then .imaginary
  else if hasHexMark number then
    if number.any (fun c => c = '.' || c = 'p' || c = 'P') then .float else .int
  else if number.any (fun c => c = '.' || c = 'e' || c = 'E') then .float
  else .int

/-- The word is an identifier, unless it is reserved. -/
def wordLexeme (word : String) : Lexeme :=
  match Keyword.ofText? word with
  | some keyword => .keyword keyword
  | none => .ident word

/-! ## One item -/

/-- A literal between quotes, from what cutting it off behind its opening quote gave. -/
def quotedItem (kind : LiteralKind) (quote : Char) (cause : ScanCause) :
    Option (List Char × List Char) → Except ScanCause (Item × List Char)
  | some (inside, rest) => .ok (.word (.literal kind (String.ofList (quote :: inside))), rest)
  | none => .error cause

/-- The item at the start of a text whose first character is given, and what is left after it. -/
def Item.next (c : Char) (cs : List Char) : Except ScanCause (Item × List Char) :=
  if c = '\n' then .ok (.newline, cs)
  else if isSpacing c then .ok (.blank c, cs)
  else if c = '/' && cs.head? = some '/' then
    .ok (.comment (String.ofList (c :: cs.takeWhile (· ≠ '\n'))), cs.dropWhile (· ≠ '\n'))
  else if c = '/' && cs.head? = some '*' then
    match cutBlock cs.tail with
    | some (inside, rest) => .ok (.comment (String.ofList (c :: '*' :: inside)), rest)
    | none => .error .openComment
  else if c.isDigit || (c = '.' && cs.head?.any Char.isDigit) then
    let (inside, rest) := cutNumber (hasHexMark (c :: cs)) c cs
    .ok (.word (.literal (LiteralKind.ofNumber (c :: inside)) (String.ofList (c :: inside))), rest)
  else if c = '"' then quotedItem .string c .openString (cutQuoted c cs)
  else if c = '\x60' then quotedItem .string c .openRawString (cutRaw c cs)
  else if c = '\x27' then quotedItem .rune c .openRune (cutQuoted c cs)
  else if beginsIdent c then
    .ok (.word (wordLexeme (String.ofList (c :: cs.takeWhile continuesIdent))),
      cs.dropWhile continuesIdent)
  else
    match Operator.atStart? (c :: cs) with
    | some operator =>
      .ok (.word (.op operator), (c :: cs).drop operator.text.toList.length)
    | none => .error (.unexpected c)

/-! ## The cases of an item -/

/-- How an item stands at the start of a text, and what is left behind it: what tells that it does is
its first character, and the next one where that is not enough. -/
inductive Item.Starts (c : Char) (cs : List Char) : Item → List Char → Prop where
  | newline (line : c = '\n') : Starts c cs .newline cs
  | blank (spacing : isSpacing c = true) : Starts c cs (.blank c) cs
  | lineComment (slash : c = '/') (next : cs.head? = some '/') :
      Starts c cs (.comment (String.ofList (c :: cs.takeWhile (· ≠ '\n')))) (cs.dropWhile (· ≠ '\n'))
  | blockComment {inside rest : List Char} (slash : c = '/') (next : cs.head? = some '*')
      (cut : cutBlock cs.tail = some (inside, rest)) :
      Starts c cs (.comment (String.ofList (c :: '*' :: inside))) rest
  | number (begins : (c.isDigit || (c = '.' && cs.head?.any Char.isDigit)) = true) :
      Starts c cs
        (.word (.literal (.ofNumber (c :: (cutNumber (hasHexMark (c :: cs)) c cs).1))
          (String.ofList (c :: (cutNumber (hasHexMark (c :: cs)) c cs).1))))
        (cutNumber (hasHexMark (c :: cs)) c cs).2
  | quoted {kind : LiteralKind} {inside rest : List Char}
      (quote : c = '"' ∧ kind = .string ∨ c = '\x27' ∧ kind = .rune)
      (cut : cutQuoted c cs = some (inside, rest)) :
      Starts c cs (.word (.literal kind (String.ofList (c :: inside)))) rest
  | raw {inside rest : List Char} (quote : c = '\x60') (cut : cutRaw c cs = some (inside, rest)) :
      Starts c cs (.word (.literal .string (String.ofList (c :: inside)))) rest
  | name (double : c ≠ '"') (single : c ≠ '\x27') (begins : beginsIdent c = true) :
      Starts c cs (.word (wordLexeme (String.ofList (c :: cs.takeWhile continuesIdent))))
        (cs.dropWhile continuesIdent)
  | operator {o : Operator} (double : c ≠ '"') (single : c ≠ '\x27')
      (found : Operator.atStart? (c :: cs) = some o) :
      Starts c cs (.word (.op o)) ((c :: cs).drop o.text.toList.length)

theorem cut_of_quotedItem {kind : LiteralKind} {quote : Char} {cause : ScanCause} {item : Item}
    {cut : Option (List Char × List Char)} {rest : List Char}
    (h : quotedItem kind quote cause cut = .ok (item, rest)) :
    ∃ inside, cut = some (inside, rest) ∧
      item = .word (.literal kind (String.ofList (quote :: inside))) := by
  cases cut with
  | none => cases h
  | some pair =>
    cases h
    exact ⟨_, rfl, rfl⟩

/-- The cases of an item, once for all that is shown of items. -/
theorem Item.starts_of_next {c : Char} {cs rest : List Char} {item : Item}
    (h : Item.next c cs = .ok (item, rest)) : Item.Starts c cs item rest := by
  unfold Item.next at h
  split at h
  · next line =>
    cases h
    exact .newline line
  split at h
  · next spacing =>
    cases h
    exact .blank spacing
  split at h
  · next comment =>
    cases h
    obtain ⟨slash, next⟩ : c = '/' ∧ cs.head? = some '/' := by simpa using comment
    exact .lineComment slash next
  split at h
  · next comment =>
    obtain ⟨slash, next⟩ : c = '/' ∧ cs.head? = some '*' := by simpa using comment
    split at h
    · next cut =>
      cases h
      exact .blockComment slash next cut
    · cases h
  split at h
  · next begins =>
    cases h
    exact .number begins
  split at h
  · next quote =>
    obtain ⟨inside, cut, rfl⟩ := cut_of_quotedItem h
    exact .quoted (.inl ⟨quote, rfl⟩) cut
  next double =>
  split at h
  · next quote =>
    obtain ⟨inside, cut, rfl⟩ := cut_of_quotedItem h
    exact .raw quote cut
  split at h
  · next quote =>
    obtain ⟨inside, cut, rfl⟩ := cut_of_quotedItem h
    exact .quoted (.inr ⟨quote, rfl⟩) cut
  next single =>
  split at h
  · next begins =>
    cases h
    exact .name double single begins
  split at h
  · next found =>
    cases h
    exact .operator double single found
  · cases h

/-! ## Nothing is lost -/

theorem cutBlock_text {cs inside rest : List Char} (h : cutBlock cs = some (inside, rest)) :
    inside ++ rest = cs := by
  fun_induction cutBlock cs generalizing inside with
  | case1 => cases h; rfl
  | case2 c cs _ ih =>
    obtain ⟨⟨inside', rest'⟩, h', he⟩ := Option.map_eq_some_iff.1 h
    cases he
    simp [ih h']
  | case3 => cases h

theorem cutQuoted_text {quote : Char} {cs inside rest : List Char}
    (h : cutQuoted quote cs = some (inside, rest)) : inside ++ rest = cs := by
  fun_induction cutQuoted quote cs generalizing inside with
  | case1 => cases h
  | case2 => cases h; rfl
  | case3 => cases h
  | case4 => cases h
  | case5 _ _ _ _ ih =>
    obtain ⟨⟨inside', rest'⟩, h', he⟩ := Option.map_eq_some_iff.1 h
    cases he
    simp [ih h']
  | case6 c cs _ _ _ ih =>
    obtain ⟨⟨inside', rest'⟩, h', he⟩ := Option.map_eq_some_iff.1 h
    cases he
    simp [ih h']

theorem cutRaw_text {quote : Char} {cs inside rest : List Char}
    (h : cutRaw quote cs = some (inside, rest)) : inside ++ rest = cs := by
  fun_induction cutRaw quote cs generalizing inside with
  | case1 => cases h
  | case2 => cases h; rfl
  | case3 c cs _ ih =>
    obtain ⟨⟨inside', rest'⟩, h', he⟩ := Option.map_eq_some_iff.1 h
    cases he
    simp [ih h']

theorem cutNumber_text (hex : Bool) (before : Char) (cs : List Char) :
    (cutNumber hex before cs).1 ++ (cutNumber hex before cs).2 = cs := by
  fun_induction cutNumber hex before cs with
  | case1 => rfl
  | case2 before c cs _ inside rest h ih => simp_all
  | case3 => rfl

theorem Keyword.text_of_ofText? {word : String} {keyword : Keyword}
    (h : Keyword.ofText? word = some keyword) : keyword.text = word := by
  simpa using List.find?_some h

theorem wordLexeme_text (word : String) : (wordLexeme word).text = word := by
  unfold wordLexeme
  split
  · next h => exact Keyword.text_of_ofText? h
  · rfl

theorem Operator.text_append_drop {cs : List Char} {operator : Operator}
    (h : Operator.atStart? cs = some operator) :
    operator.text.toList ++ cs.drop operator.text.toList.length = cs := by
  have hp : operator.text.toList <+: cs := by
    simpa [Operator.atStart?] using List.find?_some h
  exact List.prefix_iff_eq_append.1 hp

/-- An item begins with the first character of the text, and with what is left behind it, it is the
text. -/
theorem Item.Starts.exists_text {c : Char} {cs rest : List Char} {item : Item}
    (h : Starts c cs item rest) : ∃ inside, item.text = c :: inside ∧ inside ++ rest = cs := by
  cases h with
  | newline line =>
    subst line
    exact ⟨[], rfl, rfl⟩
  | blank => exact ⟨[], rfl, rfl⟩
  | lineComment => exact ⟨_, String.toList_ofList, List.takeWhile_append_dropWhile⟩
  | blockComment _ next cut =>
    obtain ⟨ds, rfl⟩ := List.head?_eq_some_iff.1 next
    exact ⟨_, String.toList_ofList, congrArg ('*' :: ·) (cutBlock_text cut)⟩
  | number => exact ⟨_, String.toList_ofList, cutNumber_text _ c cs⟩
  | quoted _ cut => exact ⟨_, String.toList_ofList, cutQuoted_text cut⟩
  | raw _ cut => exact ⟨_, String.toList_ofList, cutRaw_text cut⟩
  | name =>
    refine ⟨cs.takeWhile continuesIdent, ?_, List.takeWhile_append_dropWhile⟩
    rw [Item.text, wordLexeme_text, String.toList_ofList]
  | @operator o _ _ found =>
    have whole := Operator.text_append_drop found
    cases chars : o.text.toList with
    | nil => cases o <;> simp [Operator.text] at chars
    | cons d inside =>
      rw [chars, List.cons_append] at whole
      obtain ⟨same, behind⟩ := List.cons.inj whole
      exact ⟨inside, by rw [Item.text, Lexeme.text, chars, same], chars ▸ behind⟩

/-- An item is the start of the text, and it is not empty. -/
theorem Item.next_text {c : Char} {cs rest : List Char} {item : Item}
    (h : Item.next c cs = .ok (item, rest)) :
    item.text ++ rest = c :: cs ∧ rest.length ≤ cs.length := by
  obtain ⟨inside, text, behind⟩ := (starts_of_next h).exists_text
  refine ⟨by rw [text, List.cons_append, behind], ?_⟩
  rw [← behind, List.length_append]
  exact Nat.le_add_left ..

/-! ## All items -/

/-- The items of a text, up to its end or to the first place where none can stand. -/
def scan (source : List Char) : List Item × Option ScanCause :=
  match source with
  | [] => ([], none)
  | c :: cs =>
    match h : Item.next c cs with
    | .error cause => ([], some cause)
    | .ok (item, rest) =>
      have := (Item.next_text h).2
      let (items, fault) := scan rest
      (item :: items, fault)
termination_by source.length

/-- The items of a text that scans to its end are the text. -/
theorem scan_text {source : List Char} (h : (scan source).2 = none) :
    (scan source).1.flatMap Item.text = source := by
  fun_induction scan source with
  | case1 => rfl
  | case2 => cases h
  | case3 c cs item rest hn _ items fault hs ih =>
    simp only [hs] at ih
    simp only [List.flatMap_cons, ih h]
    exact (Item.next_text hn).1

end Typings
