import Typings.Name.Basic
import Typings.TsType.Text

/-!
# The words of a written type

A type is written as a text; `TsWord.ofText` cuts the text at its seams again, knowing nothing of
the type: names and keys, the marks that group them, and line ends, which part the members of a
body. Blanks and comments give no words.
-/

namespace Typings

/-- A word of a written type. A key in quotes is a word whatever it holds. -/
inductive TsWord where
  | name (text : String)
  | quoted
  | leftParen
  | rightParen
  | leftBracket
  | rightBracket
  | leftBrace
  | rightBrace
  | less
  | greater
  | comma
  | colon
  | question
  | bar
  | arrow
  | dots
  | lineEnd
  deriving DecidableEq, Repr

namespace TsWord

/-- The words that a character by itself gives, and none if it is part of a name. -/
def ofMark? : Char → Option (List TsWord)
  | '(' => some [.leftParen]
  | ')' => some [.rightParen]
  | '[' => some [.leftBracket]
  | ']' => some [.rightBracket]
  | '{' => some [.leftBrace]
  | '}' => some [.rightBrace]
  | '<' => some [.less]
  | '>' => some [.greater]
  | ',' => some [.comma]
  | ':' => some [.colon]
  | '?' => some [.question]
  | '|' => some [.bar]
  | '\n' => some [.lineEnd]
  | ' ' | '\t' | '/' | '=' | '\x27' => some []
  | _ => none

/-- The name with these characters, the last one first; no word for no characters. -/
def ofName : List Char → List TsWord
  | [] => []
  | before => [.name (String.ofList before.reverse)]

/-- What the characters before a place have begun. -/
inductive Inside where
  /-- A name, with its characters so far, or nothing. -/
  | name (before : List Char)
  /-- A comment up to the end of its line. -/
  | lineComment
  /-- A comment up to its end mark. -/
  | blockComment
  /-- A key in quotes. -/
  | quotes
  deriving DecidableEq, Repr

/-- The words from a place on, given what it is inside of. -/
def scan : Inside → List Char → List TsWord
  | .name before, '/' :: '/' :: cs => ofName before ++ scan .lineComment cs
  | .name before, '/' :: '*' :: cs => ofName before ++ scan .blockComment cs
  | .name before, '=' :: '>' :: cs => ofName before ++ .arrow :: scan (.name []) cs
  | .name before, '\x27' :: cs => ofName before ++ .quoted :: scan .quotes cs
  | .name [], '.' :: '.' :: '.' :: cs => .dots :: scan (.name []) cs
  | .name before, c :: cs =>
    match ofMark? c with
    | some ws => ofName before ++ ws ++ scan (.name []) cs
    | none => scan (.name (c :: before)) cs
  | .name before, [] => ofName before
  | .lineComment, '\n' :: cs => .lineEnd :: scan (.name []) cs
  | .lineComment, _ :: cs => scan .lineComment cs
  | .blockComment, '*' :: '/' :: cs => scan (.name []) cs
  | .blockComment, _ :: cs => scan .blockComment cs
  | .quotes, '\\' :: _ :: cs => scan .quotes cs
  | .quotes, '\x27' :: cs => scan (.name []) cs
  | .quotes, _ :: cs => scan .quotes cs
  | _, [] => []

/-- The words of a text. -/
def ofText (text : String) : List TsWord := scan (.name []) text.toList

/-! ## Names -/

/-- A name that is under way ends before this character, which begins no other word with the one
behind it. -/
def endsName (c : Char) : Bool := (ofMark? c).isSome && !(['/', '=', '\x27'].contains c)

/-- A name that is under way ends before this text. -/
inductive NameEnds : List Char → Prop
  | nil : NameEnds []
  | mark {c : Char} {cs : List Char} : endsName c = true → NameEnds (c :: cs)

/-- The text is one name. -/
def IsName (text : String) : Prop :=
  ∃ c cs, text.toList = c :: cs ∧ c ≠ '.' ∧ ∀ d ∈ c :: cs, ofMark? d = none

/-- The text has a first character that does not begin dots, and no mark. -/
def isNameText (text : String) : Bool :=
  text.toList.head?.any (· != '.') && text.toList.all fun c => (ofMark? c).isNone

theorem isNameText_iff {text : String} : isNameText text = true ↔ IsName text := by
  unfold isNameText IsName
  cases text.toList with
  | nil => simp
  | cons c cs =>
    refine ⟨fun h => ⟨c, cs, rfl, by simpa using h⟩, ?_⟩
    rintro ⟨c, cs, same, start, parts⟩
    cases same
    simpa using And.intro start parts

instance : DecidablePred IsName := fun _ => decidable_of_iff _ isNameText_iff

section

variable {before cs rest : List Char} {c : Char} {ws : List TsWord}

/-- A character that begins no word together with what is behind it. -/
theorem scan_char (slash : c ≠ '/') (equals : c ≠ '=') (quote : c ≠ '\x27')
    (dots : ∀ cs', before = [] → c = '.' → cs = '.' :: '.' :: cs' → False) :
    scan (.name before) (c :: cs) =
      match ofMark? c with
      | some ws => ofName before ++ ws ++ scan (.name []) cs
      | none => scan (.name (c :: before)) cs := by
  rw [scan]
  · exact fun _ same => absurd same slash
  · exact fun _ same => absurd same slash
  · exact fun _ same => absurd same equals
  · exact quote
  · exact dots

theorem scan_mark (ends : endsName c = true) (mark : ofMark? c = some ws) :
    scan (.name before) (c :: cs) = ofName before ++ ws ++ scan (.name []) cs := by
  have other : ∀ d : Char, endsName d = false → c ≠ d := by
    rintro d hd rfl
    exact Bool.false_ne_true (hd.symm.trans ends)
  have dot := other '.' rfl
  rw [scan_char (other '/' rfl) (other '=' rfl) (other '\x27' rfl) fun _ _ same => absurd same dot, mark]

/-- What ends a name sets it off from what is behind it. -/
theorem scan_nameEnds (h : NameEnds rest) :
    scan (.name before) rest = ofName before ++ scan (.name []) rest := by
  cases h with
  | nil => exact (List.append_nil _).symm
  | mark ends =>
    obtain ⟨mark, _⟩ := Bool.and_eq_true_iff.1 ends
    obtain ⟨ws, mark⟩ := Option.isSome_iff_exists.1 mark
    rw [scan_mark ends mark, scan_mark ends mark, List.append_assoc]
    rfl

theorem scan_namePart (part : ofMark? c = none) (begun : before ≠ [] ∨ c ≠ '.') :
    scan (.name before) (c :: cs) = scan (.name (c :: before)) cs := by
  have other : ∀ d : Char, (ofMark? d).isSome = true → c ≠ d := by
    rintro d hd rfl
    rw [part] at hd
    cases hd
  have dots : ∀ cs', before = [] → c = '.' → cs = '.' :: '.' :: cs' → False := by
    intro cs' empty dot _
    rcases begun with begun | begun
    · exact begun empty
    · exact begun dot
  rw [scan_char (other '/' rfl) (other '=' rfl) (other '\x27' rfl) dots, part]

/-- The characters of a name are put together from behind. -/
theorem scan_nameParts (parts : ∀ c ∈ cs, ofMark? c = none) (begun : before ≠ []) :
    scan (.name before) (cs ++ rest) = scan (.name (cs.reverse ++ before)) rest := by
  induction cs generalizing before with
  | nil => rfl
  | cons c cs ih =>
    obtain ⟨part, parts⟩ := List.forall_mem_cons.1 parts
    rw [List.cons_append, scan_namePart part (.inl begun), ih parts (List.cons_ne_nil c before)]
    simp only [List.reverse_cons, List.append_assoc, List.singleton_append]

/-! ## Comments, keys and blanks -/

/-- Inside a comment or quotes, a character that does not end them gives no word. -/
theorem scan_inside (c : Char) (cs : List Char) :
    (c ≠ '\n' → scan .lineComment (c :: cs) = scan .lineComment cs) ∧
      ((∀ ds, c = '*' → cs = '/' :: ds → False) → scan .blockComment (c :: cs) = scan .blockComment cs) ∧
      (c ≠ '\\' → c ≠ '\x27' → scan .quotes (c :: cs) = scan .quotes cs) := by
  refine ⟨fun newline => ?_, fun mark => ?_, fun escape quote => ?_⟩
  · rw [scan]
    exact newline
  · rw [scan]
    exact mark
  · rw [scan]
    · exact fun _ _ same => absurd same escape
    · exact quote

/-- A line comment is read over to the end of the line, which is left. -/
theorem scan_lineComment (h : '\n' ∉ cs) :
    scan .lineComment (cs ++ '\n' :: rest) = .lineEnd :: scan (.name []) rest := by
  induction cs with
  | nil => rfl
  | cons c cs ih =>
    obtain ⟨here, later⟩ := not_or.1 (mt List.mem_cons.2 h)
    rw [List.cons_append, (scan_inside c _).1 fun same => here same.symm, ih later]

/-- No text of a comment has an end mark in it: what is behind a star is no slash. -/
theorem escapeEnd_append_ne {c : Char} (other : ∀ ds, c = '*' → cs = '/' :: ds → False)
    (h : rest.head? ≠ some '/') (ds : List Char) (star : c = '*')
    (slash : escapeEnd cs ++ rest = '/' :: ds) : False := by
  cases cs with
  | nil => exact h (congrArg List.head? slash)
  | cons e es =>
    have head : (escapeEnd (e :: es) ++ rest).head? = some e := by
      rw [escapeEnd.eq_def]
      split <;> simp_all
    rw [slash] at head
    cases head
    exact other es star rfl

/-- A text that is escaped does not end the comment around it. -/
theorem scan_blockComment_escapeEnd (h : rest.head? ≠ some '/') :
    scan .blockComment (escapeEnd cs ++ rest) = scan .blockComment rest := by
  fun_induction escapeEnd cs with
  | case1 cs ih => exact ih
  | case2 c cs other ih =>
    rw [List.cons_append, (scan_inside c _).2.1 (escapeEnd_append_ne other h), ih]
  | case3 => rfl

/-- A key that is escaped ends at its own quote. -/
theorem scan_quotes : scan .quotes (cs.flatMap Name.escapeKeyChar ++ '\x27' :: rest) =
    scan (.name []) rest := by
  induction cs with
  | nil => rfl
  | cons c cs ih =>
    rw [List.flatMap_cons, Name.escapeKeyChar]
    split
    · exact ih
    · next plain =>
      simp only [Bool.or_eq_true, decide_eq_true_eq, not_or] at plain
      rw [List.append_assoc, List.singleton_append, (scan_inside c _).2.2 plain.1 plain.2, ih]

end

/-! ## Texts and the words they give -/

/-- The text gives the words wherever a name ends behind it. -/
def Gives (text : String) (ws : List TsWord) : Prop :=
  ∀ rest, NameEnds rest → scan (.name []) (text.toList ++ rest) = ws ++ scan (.name []) rest

/-- The text gives the words whatever follows it. -/
def Closes (text : String) (ws : List TsWord) : Prop :=
  ∀ rest, scan (.name []) (text.toList ++ rest) = ws ++ scan (.name []) rest

/-- A name ends before the text. -/
def EndsNames (text : String) : Prop := ∀ rest, NameEnds (text.toList ++ rest)

section

variable {a b text : String} {us ws vs : List TsWord}

/-- A text that closes itself off gives its words before anything. -/
theorem Closes.gives (h : Closes a ws) : Gives a ws := fun rest _ => h rest

/-- Words of texts that are closed off stand one behind the other. -/
theorem Closes.append (h : Closes a ws) (h' : Closes b vs) : Closes (a ++ b) (ws ++ vs) := by
  intro rest
  rw [String.toList_append, List.append_assoc, h, h', List.append_assoc]

/-- A closed text may stand before any other. -/
theorem Closes.append_gives (h : Closes a ws) (h' : Gives b vs) : Gives (a ++ b) (ws ++ vs) := by
  intro rest ends
  rw [String.toList_append, List.append_assoc, h, h' rest ends, List.append_assoc]

/-- A closed text that ends names may stand behind any other. -/
theorem Gives.append_closes (h : Gives a ws) (h' : Closes b vs) (between : EndsNames b) :
    Closes (a ++ b) (ws ++ vs) := by
  intro rest
  rw [String.toList_append, List.append_assoc, h _ (between rest), h', List.append_assoc]

/-- Words stay apart where the second text ends names. -/
theorem Gives.append (h : Gives a ws) (h' : Gives b vs) (between : EndsNames b) :
    Gives (a ++ b) (ws ++ vs) := by
  intro rest ends
  rw [String.toList_append, List.append_assoc, h _ (between rest), h' rest ends, List.append_assoc]

/-- Words in brackets are closed off by them. -/
theorem Gives.enclosed (h : Gives text ws) (opening : Closes a us) (closing : Closes b vs)
    (between : EndsNames b) : Closes (a ++ text ++ b) (us ++ ws ++ vs) :=
  (opening.append_gives h).append_closes closing between

theorem EndsNames.append (h : EndsNames a) (b : String) : EndsNames (a ++ b) := by
  intro rest
  rw [String.toList_append, List.append_assoc]
  exact h _

end

theorem closes_empty : Closes "" [] := fun _ => rfl

/-! ### Names and keys -/

/-- A name is one word. -/
theorem IsName.gives {text : String} (h : IsName text) : Gives text [.name text] := by
  obtain ⟨c, cs, chars, start, parts⟩ := h
  obtain ⟨part, parts⟩ := List.forall_mem_cons.1 parts
  intro rest ends
  have word : ofName (cs.reverse ++ [c]) = [.name text] := by
    rw [← List.reverse_cons, ← chars, ofName, List.reverse_reverse, String.ofList_toList]
    rw [chars]
    exact fun none => List.cons_ne_nil c cs (List.reverse_eq_nil_iff.1 none)
  rw [chars, List.cons_append, scan_namePart part (.inr start),
    scan_nameParts parts (List.cons_ne_nil c []), scan_nameEnds ends, word]

/-- A name may go on with more characters. -/
theorem IsName.append {a b : String} (h : IsName a) (parts' : ∀ c ∈ b.toList, ofMark? c = none) :
    IsName (a ++ b) := by
  obtain ⟨c, cs, chars, start, parts⟩ := h
  refine ⟨c, cs ++ b.toList, ?_, start, ?_⟩
  · rw [String.toList_append, chars, List.cons_append]
  · rw [← List.cons_append]
    exact List.forall_mem_append.2 ⟨parts, parts'⟩

theorem IsName.parts {text : String} (h : IsName text) : ∀ c ∈ text.toList, ofMark? c = none := by
  obtain ⟨c, cs, chars, _, parts⟩ := h
  rw [chars]
  exact parts

/-- No part of a name is a mark. -/
theorem ofMark?_eq_none {c : Char} (h : Name.isPart c = true) : ofMark? c = none := by
  cases mark : ofMark? c with
  | none => rfl
  | some ws =>
    unfold ofMark? at mark
    split at mark <;> first | exact absurd h (by decide) | cases mark

/-- An identifier is one name. -/
theorem IsName.ofIdentifier {text : String} {c : Char} {cs : List Char} (chars : text.toList = c :: cs)
    (start : Name.isStart c = true) (parts : cs.all Name.isPart = true) : IsName text := by
  refine ⟨c, cs, chars, ?_, List.forall_mem_cons.2 ⟨ofMark?_eq_none ?_, fun d mem => ?_⟩⟩
  · rintro rfl
    exact absurd start (by decide)
  · unfold Name.isPart
    rw [Bool.or_eq_true]
    exact .inl start
  · exact ofMark?_eq_none (List.all_eq_true.1 parts d mem)

/-- The names the program makes up are read as names. -/
theorem isName_of_isReserved {name : String} (h : Name.isReserved name = true) : IsName name := by
  have all : ∀ name ∈ Name.reservedWords, IsName name := by decide
  exact all name (List.contains_iff_mem.1 h)

/-- A property key is a name or stands in quotes. -/
theorem propertyKey_word (name : String) :
    IsName (Name.propertyKey name) ∨ Closes (Name.propertyKey name) [.quoted] := by
  unfold Name.propertyKey
  split
  · next bare =>
    refine .inl ?_
    rcases Bool.or_eq_true_iff.1 bare with reserved | identifier
    · exact isName_of_isReserved reserved
    · split at identifier
      · cases identifier
      · next c cs chars =>
        obtain ⟨start, parts⟩ := Bool.and_eq_true_iff.1 identifier
        exact .ofIdentifier chars start parts
  · refine .inr fun rest => ?_
    rw [String.toList_ofList, List.cons_append, List.cons_append, List.append_assoc]
    exact congrArg (TsWord.quoted :: ·) scan_quotes

/-! ### Blanks and comments -/

/-- The text is made of blanks. -/
def IsBlank (text : String) : Prop := ∀ c ∈ text.toList, c = ' ' ∨ c = '\t'

instance : DecidablePred IsBlank := fun text =>
  decidable_of_iff (text.toList.all (fun c => c = ' ' || c = '\t') = true) (by simp [IsBlank])

theorem isBlank_indentText {indent : String} (h : IsBlank indent) (depth : Int) :
    IsBlank (indentText indent depth) := by
  intro c mem
  rw [indentText, String.toList_join, List.mem_flatMap] at mem
  obtain ⟨text, among, inside⟩ := mem
  rw [List.eq_of_mem_replicate among] at inside
  exact h c inside

/-- Blanks are skipped, in a comment too. -/
theorem IsBlank.scan {text : String} (h : IsBlank text) {inside : Inside}
    (skips : inside = .name [] ∨ inside = .blockComment) (rest : List Char) :
    scan inside (text.toList ++ rest) = scan inside rest := by
  unfold IsBlank at h
  generalize text.toList = cs at h ⊢
  induction cs with
  | nil => rfl
  | cons c cs ih =>
    obtain ⟨blank, blanks⟩ := List.forall_mem_cons.1 h
    rcases skips with rfl | rfl <;> rcases blank with rfl | rfl <;> exact ih blanks

/-- Blanks give no word. -/
theorem IsBlank.closes {text : String} (h : IsBlank text) : Closes text [] := h.scan (.inl rfl)

theorem scan_docLine (line : String) (rest : List Char) :
    scan .blockComment ((docLine line).toList ++ rest) = scan .blockComment rest := by
  unfold docLine
  split
  · rfl
  · have chars : (String.ofList (escapeEnd line.toList)).toList = escapeEnd line.toList :=
      String.toList_ofList
    rw [String.toList_append, String.toList_append, chars, List.append_assoc, List.append_assoc]
    have ended : ('\n' :: rest).head? ≠ some '/' := by simp
    exact scan_blockComment_escapeEnd ended

/-- The lines of a doc are all read over. -/
theorem scan_docLines {margin : String} (h : IsBlank margin) (lines : List String)
    (rest : List Char) :
    scan .blockComment
        ((String.join (lines.map fun line => margin ++ docLine line)).toList ++ rest) =
      scan .blockComment rest := by
  induction lines with
  | nil => rfl
  | cons line lines ih =>
    rw [List.map_cons, String.join_cons, String.toList_append, String.toList_append,
      List.append_assoc, List.append_assoc, h.scan (.inr rfl), scan_docLine, ih]

/-- A doc is read over, up to the end of its last line. -/
theorem closes_docBlock {margin : String} (h : IsBlank margin) (lines : List String) :
    Closes (docBlock margin lines) (if lines.isEmpty then [] else [.lineEnd]) := by
  intro rest
  have opening : ∀ rest, scan (.name []) ("/**\n".toList ++ rest) = scan .blockComment rest :=
    fun _ => rfl
  unfold docBlock
  split
  · rfl
  · simp only [String.toList_append, List.append_assoc]
    rw [h.closes, List.nil_append, opening, scan_docLines h, h.scan (.inr rfl)]
    rfl

/-- The end of a member is one line end, with or without a note. -/
theorem closes_lineEndText {note : String} (h : '\n' ∉ note.toList) :
    Closes (lineEndText note) [.lineEnd] := by
  intro rest
  unfold lineEndText
  split
  · rfl
  · rw [String.toList_append, String.toList_append, List.append_assoc, List.append_assoc]
    exact scan_lineComment h

/-- The note of a parameter is read over. -/
theorem closes_paramNote (note : String) : Closes (paramNote note) [] := by
  intro rest
  unfold paramNote
  split
  · rfl
  · have chars : (String.ofList (escapeEnd note.toList)).toList = escapeEnd note.toList :=
      String.toList_ofList
    rw [String.toList_append, String.toList_append, chars, List.append_assoc, List.append_assoc]
    have ended : (' ' :: '*' :: '/' :: rest).head? ≠ some '/' := by simp
    exact scan_blockComment_escapeEnd ended

end TsWord
end Typings
