import Typings.Proofs.Token.Spaced

/-!
# Items of a text with carriage returns

A text is cut at the same seams if a carriage return is put before each newline (`scan_crlf`), as long as
no newline is hidden behind a backslash. A carriage return goes to the line comment before the newline, or
it is a blank; inside block comments and raw strings it belongs to their text (`Recut`).
-/

namespace Typings

namespace Text

/-- The text with a carriage return before each newline. -/
def crlf : List Char → List Char
  | [] => []
  | c :: cs => if c = '\n' then '\r' :: '\n' :: crlf cs else c :: crlf cs

theorem crlf_newline (cs : List Char) : crlf ('\n' :: cs) = '\r' :: '\n' :: crlf cs := rfl

theorem crlf_cons {c : Char} (other : c ≠ '\n') (cs : List Char) : crlf (c :: cs) = c :: crlf cs :=
  if_neg other

/-- Line ends are replaced piece by piece. -/
theorem crlf_append (cs ds : List Char) : crlf (cs ++ ds) = crlf cs ++ crlf ds := by
  induction cs with
  | nil => rfl
  | cons c cs ih =>
    rw [List.cons_append, crlf, crlf, ih]
    split <;> rfl

theorem crlf_of_not_mem {cs : List Char} (none : '\n' ∉ cs) : crlf cs = cs := by
  induction cs with
  | nil => rfl
  | cons c cs ih =>
    have here : c ≠ '\n' := (List.ne_of_not_mem_cons none).symm
    rw [crlf_cons here, ih (List.not_mem_of_not_mem_cons none)]

/-- No line end is lost and none is new. -/
theorem newline_mem_crlf {cs : List Char} : '\n' ∈ crlf cs ↔ '\n' ∈ cs := by
  induction cs with
  | nil => exact Iff.rfl
  | cons c cs ih =>
    by_cases here : c = '\n'
    · simp [here, crlf_newline]
    · simp [crlf_cons here, ih]

/-- A test that newlines and carriage returns fail does not see the carriage returns. -/
theorem takeWhile_crlf {p : Char → Bool} (newline : p '\n' = false) (carriage : p '\r' = false)
    (cs : List Char) : (crlf cs).takeWhile p = cs.takeWhile p := by
  induction cs with
  | nil => rfl
  | cons c cs ih =>
    by_cases here : c = '\n'
    · subst here
      simp [crlf_newline, newline, carriage]
    · simp [crlf_cons here, List.takeWhile_cons, ih]

/-- What runs to the end of a line stops at the same place. -/
theorem dropWhile_crlf {p : Char → Bool} (newline : p '\n' = false) (carriage : p '\r' = false)
    (cs : List Char) : (crlf cs).dropWhile p = crlf (cs.dropWhile p) := by
  induction cs with
  | nil => rfl
  | cons c cs ih =>
    by_cases here : c = '\n'
    · subst here
      simp [crlf_newline, newline, carriage]
    · rw [crlf_cons here, List.dropWhile_cons, List.dropWhile_cons, ih]
      split
      · rfl
      · rw [crlf_cons here]

/-- A line ends behind the carriage return that stands before its newline. -/
theorem line_crlf {line : List Char} (none : '\n' ∉ line) (more : List Char) :
    (crlf (line ++ '\n' :: more)).takeWhile (· ≠ '\n') = line ++ ['\r'] ∧
      (crlf (line ++ '\n' :: more)).dropWhile (· ≠ '\n') = '\n' :: crlf more := by
  have all : ∀ c ∈ line ++ ['\r'], decide (c ≠ '\n') = true := by
    intro c mem
    refine decide_eq_true ?_
    rintro rfl
    rcases List.mem_append.1 mem with inside | behind
    · exact none inside
    · cases List.mem_singleton.1 behind
  have text : crlf (line ++ '\n' :: more) = (line ++ ['\r']) ++ '\n' :: crlf more := by
    rw [crlf_append, crlf_of_not_mem none, crlf_newline, List.append_assoc]
    rfl
  rw [text, List.takeWhile_append_of_pos all, List.dropWhile_append_of_pos all]
  exact ⟨List.append_nil _, rfl⟩

end Text

open Text (crlf crlf_newline crlf_cons crlf_append crlf_of_not_mem)

/-! ## What follows the first character -/

section

variable {cs : List Char}

/-- A test of the first character that newlines and carriage returns fail. -/
theorem any_head?_crlf {p : Char → Bool} (newline : p '\n' = false) (carriage : p '\r' = false)
    (cs : List Char) : (crlf cs).head?.any p = cs.head?.any p := by
  cases cs with
  | nil => rfl
  | cons c cs =>
    by_cases here : c = '\n'
    · subst here
      exact carriage.trans newline.symm
    · rw [crlf_cons here]
      rfl

/-- A character other than those of a line end stands first in both sources or in neither. -/
theorem head?_crlf_eq_some {d : Char} (newline : d ≠ '\n') (carriage : d ≠ '\r') (cs : List Char) :
    (crlf cs).head? = some d ↔ cs.head? = some d := by
  have test := any_head?_crlf (p := fun c => c = d) (by simpa using newline.symm)
    (by simpa using carriage.symm) cs
  simpa [Option.any_eq_true] using congrArg (· = true) test

/-- A number has no line end in it. -/
theorem cutNumber_crlf (hex : Bool) (before : Char) (cs : List Char) :
    cutNumber hex before (crlf cs) =
      ((cutNumber hex before cs).1, crlf (cutNumber hex before cs).2) := by
  have stops : ∀ {c : Char} {more : List Char} {hex : Bool} {before : Char}, c = '\n' ∨ c = '\r' →
      cutNumber hex before (c :: more) = ([], c :: more) := by
    rintro c more hex before (rfl | rfl) <;> rfl
  fun_induction cutNumber hex before cs with
  | case1 => rfl
  | case2 before c cs goes inside left cut ih =>
    have here : c ≠ '\n' := by
      rintro rfl
      cases goes
    rw [crlf_cons here, cutNumber, if_pos goes, ih, cut]
  | case3 before c cs stays =>
    by_cases here : c = '\n'
    · subst here
      rw [crlf_newline, stops (.inr rfl)]
    · rw [crlf_cons here, cutNumber, if_neg stays]

/-- A number has no newline in it. -/
theorem newline_not_mem_cutNumber (hex : Bool) (before : Char) (cs : List Char) :
    '\n' ∉ (cutNumber hex before cs).1 := by
  fun_induction cutNumber hex before cs with
  | case1 => exact List.not_mem_nil
  | case2 before c cs goes inside left cut ih =>
    rw [cut] at ih
    refine List.not_mem_cons_of_ne_of_not_mem ?_ ih
    rintro rfl
    cases goes
  | case3 => exact List.not_mem_nil

/-- A character that does not end the comment belongs to it. -/
theorem cutBlock_cons {c : Char} (inside : ¬(c = '*' ∧ cs.head? = some '/')) :
    cutBlock (c :: cs) = (cutBlock cs).map fun cut => (c :: cut.1, cut.2) := by
  refine cutBlock.eq_2 c cs fun ds star slash => inside ⟨star, ?_⟩
  rw [slash]
  rfl

/-- A block comment ends at the same place, with its own line ends replaced. -/
theorem cutBlock_crlf (cs : List Char) :
    cutBlock (crlf cs) = (cutBlock cs).map fun cut => (crlf cut.1, crlf cut.2) := by
  fun_induction cutBlock cs with
  | case1 cs => rfl
  | case2 c cs goes ih =>
    by_cases here : c = '\n'
    · subst here
      rw [crlf_newline, cutBlock_cons (fun both => by cases both.1),
        cutBlock_cons (fun both => by cases both.1), ih]
      cases cutBlock cs <;> rfl
    · have inside : ¬(c = '*' ∧ (crlf cs).head? = some '/') := by
        rintro ⟨rfl, slash⟩
        have slash := (head?_crlf_eq_some (by decide) (by decide) cs).1 slash
        obtain ⟨ds, rfl⟩ := List.head?_eq_some_iff.1 slash
        exact goes ds rfl rfl
      rw [crlf_cons here, cutBlock_cons inside, ih]
      cases cutBlock cs with
      | none => rfl
      | some cut =>
        simp only [Option.map_some, crlf_cons here]
  | case3 => rfl

/-- A raw string ends at the same place, with its own line ends replaced. -/
theorem cutRaw_crlf {quote : Char} (newline : quote ≠ '\n') (carriage : quote ≠ '\r')
    (cs : List Char) :
    cutRaw quote (crlf cs) = (cutRaw quote cs).map fun cut => (crlf cut.1, crlf cut.2) := by
  fun_induction cutRaw quote cs with
  | case1 => rfl
  | case2 cs =>
    rw [crlf_cons newline, cutRaw, if_pos rfl, Option.map_some, crlf_cons newline]
    rfl
  | case3 c cs other ih =>
    by_cases here : c = '\n'
    · subst here
      rw [crlf_newline, cutRaw, if_neg (Ne.symm carriage), cutRaw, if_neg other, ih]
      cases cutRaw quote cs <;> rfl
    · rw [crlf_cons here, cutRaw, if_neg other, ih]
      cases cutRaw quote cs with
      | none => rfl
      | some cut => simp only [Option.map_some, crlf_cons here]

/-- No newline stands directly behind a backslash. -/
def Unescaped (cs : List Char) : Prop := ¬['\\', '\n'] <:+: cs

instance : DecidablePred Unescaped := fun cs => inferInstanceAs (Decidable (¬['\\', '\n'] <:+: cs))

/-- What is behind a character has no escaped line end either. -/
theorem Unescaped.tail {c : Char} (h : Unescaped (c :: cs)) : Unescaped cs :=
  fun inside => h (inside.trans (List.suffix_cons c cs).isInfix)

theorem Unescaped.of_append (ds : List Char) (h : Unescaped (ds ++ cs)) : Unescaped cs :=
  fun inside => h (inside.trans (List.suffix_append ds cs).isInfix)

/-- A quoted literal ends at the same place: an unescaped newline breaks it off in both sources, and no
other is in it. -/
theorem cutQuoted_crlf {quote : Char} (carriage : quote ≠ '\r') (newline : quote ≠ '\n')
    (h : Unescaped cs) :
    cutQuoted quote (crlf cs) = (cutQuoted quote cs).map fun cut => (cut.1, crlf cut.2) := by
  fun_induction cutQuoted quote cs with
  | case1 => rfl
  | case2 cs =>
    rw [crlf_cons newline, cutQuoted.eq_def]
    simp
  | case3 cs =>
    rw [crlf_newline, cutQuoted.eq_def]
    dsimp only
    rw [if_neg (Ne.symm carriage), if_neg (by decide), if_neg (by decide), cutQuoted.eq_def]
    simp [Ne.symm newline]
  | case4 other => simp [crlf, cutQuoted, other]
  | case5 d ds other plain ih =>
    have taken : d ≠ '\n' := by
      rintro rfl
      exact h (List.prefix_append ['\\', '\n'] ds).isInfix
    rw [crlf_cons plain, crlf_cons taken, cutQuoted, if_neg other, if_neg plain, if_pos rfl,
      ih h.tail.tail]
    cases cutQuoted quote ds <;> rfl
  | case6 c cs other plain slash ih =>
    rw [crlf_cons plain, cutQuoted.eq_def]
    dsimp only
    rw [if_neg other, if_neg plain, if_neg slash, ih h.tail]
    cases cutQuoted quote cs <;> rfl

/-- A literal in quotes has no newline in it. -/
theorem newline_not_mem_cutQuoted {quote : Char} {inside rest : List Char}
    (newline : quote ≠ '\n') (h : Unescaped cs) (cut : cutQuoted quote cs = some (inside, rest)) :
    '\n' ∉ inside := by
  fun_induction cutQuoted quote cs generalizing inside with
  | case1 => cases cut
  | case2 cs =>
    cases cut
    exact fun mem => newline (List.mem_singleton.1 mem).symm
  | case3 => cases cut
  | case4 => cases cut
  | case5 d ds other plain ih =>
    obtain ⟨⟨inside', rest'⟩, cut, same⟩ := Option.map_eq_some_iff.1 cut
    cases same
    refine List.not_mem_cons_of_ne_of_not_mem (Ne.symm plain)
      (List.not_mem_cons_of_ne_of_not_mem ?_ (ih h.tail.tail cut))
    rintro rfl
    exact h (List.prefix_append ['\\', '\n'] ds).isInfix
  | case6 c cs other plain slash ih =>
    obtain ⟨⟨inside', rest'⟩, cut, same⟩ := Option.map_eq_some_iff.1 cut
    cases same
    exact List.not_mem_cons_of_ne_of_not_mem (Ne.symm plain) (ih h.tail cut)

/-- A word without line ends stands first in both sources or in neither. -/
theorem isPrefixOf_crlf {word : List Char} (newline : '\n' ∉ word) (carriage : '\r' ∉ word)
    (cs : List Char) : word.isPrefixOf (crlf cs) = word.isPrefixOf cs := by
  induction word generalizing cs with
  | nil => rfl
  | cons d word ih =>
    have newline' := List.ne_of_not_mem_cons newline
    have carriage' := List.ne_of_not_mem_cons carriage
    cases cs with
    | nil => rfl
    | cons c cs =>
      by_cases here : c = '\n'
      · subst here
        rw [crlf_newline, List.isPrefixOf_cons_cons, List.isPrefixOf_cons_cons,
          beq_eq_false_iff_ne.2 newline'.symm, beq_eq_false_iff_ne.2 carriage'.symm]
        rfl
      · simp [crlf_cons here, List.isPrefixOf, ih (List.not_mem_of_not_mem_cons newline)
          (List.not_mem_of_not_mem_cons carriage)]

theorem newline_not_mem_operator (operator : Operator) : '\n' ∉ operator.text.toList := by
  cases operator <;> decide

/-- The same operator stands first. -/
theorem atStart?_crlf (cs : List Char) : Operator.atStart? (crlf cs) = Operator.atStart? cs := by
  unfold Operator.atStart?
  congr 1
  funext operator
  refine isPrefixOf_crlf (newline_not_mem_operator operator) ?_ cs
  cases operator <;> decide

/-- What is behind an operator. -/
theorem drop_atStart?_crlf {operator : Operator} (found : Operator.atStart? cs = some operator) :
    (crlf cs).drop operator.text.toList.length = crlf (cs.drop operator.text.toList.length) := by
  have text := congrArg crlf (Operator.text_append_drop found)
  rw [crlf_append, crlf_of_not_mem (newline_not_mem_operator operator)] at text
  rw [← text, List.drop_left]

theorem hasHexMark_crlf (c : Char) (cs : List Char) :
    hasHexMark (c :: crlf cs) = hasHexMark (c :: cs) := by
  by_cases zero : c = '0'
  · subst zero
    cases cs with
    | nil => rfl
    | cons d ds =>
      by_cases here : d = '\n'
      · subst here
        rfl
      · rw [crlf_cons here]
        rfl
  · simp [hasHexMark, zero]

end

/-! ## One item -/

/-- The second item is the first one with a carriage return before each newline in it: there are none, or
it is a block comment or a raw string. -/
inductive Item.Kept : Item → Item → Prop where
  | plain {item : Item} : '\n' ∉ item.text → Kept item item
  | block (inside : List Char) : Kept (.comment (String.ofList ('/' :: '*' :: (inside ++ ['*', '/']))))
      (.comment (String.ofList ('/' :: '*' :: (crlf inside ++ ['*', '/']))))
  | raw (inside : List Char) : Kept (.word (.literal .string (String.ofList ('\x60' :: inside))))
      (.word (.literal .string (String.ofList ('\x60' :: crlf inside))))

/-- The items at the start of two texts, and what is left behind them; or there is none in either. -/
inductive Item.NextKept : Except ScanCause (Item × List Char) → Except ScanCause (Item × List Char) → Prop
  | fault (cause : ScanCause) : NextKept (.error cause) (.error cause)
  | item {item item' : Item} (rest : List Char) : Kept item item' →
      NextKept (.ok (item, rest)) (.ok (item', crlf rest))

/-- A block comment ends with its mark, so that what is cut behind it is no part of it. -/
theorem cutBlock_closed {cs inside rest : List Char} (cut : cutBlock cs = some (inside, rest)) :
    ∃ init, inside = init ++ ['*', '/'] := by
  fun_induction cutBlock cs generalizing inside with
  | case1 =>
    cases cut
    exact ⟨[], rfl⟩
  | case2 c cs _ ih =>
    obtain ⟨⟨inside', rest'⟩, cut, same⟩ := Option.map_eq_some_iff.1 cut
    cases same
    obtain ⟨init, rfl⟩ := ih cut
    exact ⟨c :: init, rfl⟩
  | case3 => cases cut

/-- A quoted literal is kept, with what is behind it. -/
theorem Item.NextKept.quoted {kind : LiteralKind} {quote : Char} {cause : ScanCause} {cs : List Char}
    (newline : quote ≠ '\n') (carriage : quote ≠ '\r') (unescaped : Unescaped cs) :
    NextKept (quotedItem kind quote cause (cutQuoted quote cs))
      (quotedItem kind quote cause (cutQuoted quote (crlf cs))) := by
  rw [cutQuoted_crlf carriage newline unescaped]
  cases cut : cutQuoted quote cs with
  | none => exact .fault _
  | some both =>
    obtain ⟨inside, rest⟩ := both
    refine .item rest (.plain ?_)
    rw [Item.text, Lexeme.text, String.toList_ofList]
    exact List.not_mem_cons_of_ne_of_not_mem (Ne.symm newline)
      (newline_not_mem_cutQuoted newline unescaped cut)

/-- Neither a newline nor a line comment begins here. -/
theorem Item.next_crlf {c : Char} {cs : List Char} (unescaped : Unescaped cs) (newline : c ≠ '\n')
    (line : ¬(c = '/' && cs.head? = some '/') = true) :
    NextKept (next c cs) (next c (crlf cs)) := by
  have slash : decide ((crlf cs).head? = some '/') = decide (cs.head? = some '/') :=
    decide_eq_decide.2 (head?_crlf_eq_some (by decide) (by decide) cs)
  have star : decide ((crlf cs).head? = some '*') = decide (cs.head? = some '*') :=
    decide_eq_decide.2 (head?_crlf_eq_some (by decide) (by decide) cs)
  have digit : (crlf cs).head?.any Char.isDigit = cs.head?.any Char.isDigit :=
    any_head?_crlf rfl rfl cs
  unfold next
  rw [slash, star, digit, hasHexMark_crlf, if_neg newline, if_neg newline, if_neg line, if_neg line]
  split
  · refine .item cs (.plain ?_)
    exact fun mem => newline (List.mem_singleton.1 mem).symm
  split
  · next block =>
    obtain ⟨rfl, ds, rfl⟩ : c = '/' ∧ ∃ ds, cs = '*' :: ds := by
      simpa [List.head?_eq_some_iff] using block
    have cuts := cutBlock_crlf ds
    rw [crlf_cons (by decide), List.tail_cons, List.tail_cons, cuts]
    cases cut : cutBlock ds with
    | none => exact .fault _
    | some both =>
      obtain ⟨inside, rest⟩ := both
      obtain ⟨init, rfl⟩ := cutBlock_closed cut
      have closed : crlf (init ++ ['*', '/']) = crlf init ++ ['*', '/'] := crlf_append init _
      simp only [Option.map_some, closed]
      exact .item rest (.block init)
  split
  · rw [cutNumber_crlf]
    refine .item _ (.plain ?_)
    rw [Item.text, Lexeme.text, String.toList_ofList]
    exact List.not_mem_cons_of_ne_of_not_mem (Ne.symm newline) (newline_not_mem_cutNumber _ _ cs)
  split
  · next quote => exact .quoted newline (quote ▸ by decide) unescaped
  split
  · next raw =>
    subst raw
    rw [cutRaw_crlf (by decide) (by decide)]
    cases cutRaw '\x60' cs with
    | none => exact .fault _
    | some cut => exact .item cut.2 (.raw cut.1)
  split
  · next quote => exact .quoted newline (quote ▸ by decide) unescaped
  split
  · have stops : continuesIdent '\n' = false := rfl
    have stops' : continuesIdent '\r' = false := rfl
    rw [Text.takeWhile_crlf stops stops', Text.dropWhile_crlf stops stops']
    refine .item _ (.plain ?_)
    rw [Item.text, wordLexeme_text, String.toList_ofList]
    refine List.not_mem_cons_of_ne_of_not_mem (Ne.symm newline) fun mem => ?_
    exact absurd (List.all_eq_true.1 List.all_takeWhile _ mem) (by decide)
  · rw [← crlf_cons newline, atStart?_crlf]
    cases found : Operator.atStart? (c :: cs) with
    | none => exact .fault _
    | some operator =>
      dsimp only
      rw [drop_atStart?_crlf found]
      exact .item _ (.plain (newline_not_mem_operator operator))

/-- A line comment takes the carriage return before the newline behind it. -/
theorem Item.next_line {c : Char} {cs : List Char} (line : (c = '/' && cs.head? = some '/') = true) :
    ∃ body, '\n' ∉ body ∧
      ((next c cs = .ok (.comment (String.ofList ('/' :: '/' :: body)), []) ∧
        next c (crlf cs) = .ok (.comment (String.ofList ('/' :: '/' :: body)), [])) ∨
      ∃ more, next c cs = .ok (.comment (String.ofList ('/' :: '/' :: body)), '\n' :: more) ∧
        next c (crlf cs) =
          .ok (.comment (String.ofList ('/' :: '/' :: (body ++ ['\r']))), '\n' :: crlf more)) := by
  obtain ⟨rfl, cs, rfl⟩ : c = '/' ∧ ∃ ds, cs = '/' :: ds := by
    simpa [List.head?_eq_some_iff] using line
  have none : '\n' ∉ cs.takeWhile (· ≠ '\n') := fun mem =>
    absurd (List.all_eq_true.1 List.all_takeWhile _ mem) (by decide)
  have cut : ∀ ds, next '/' ('/' :: ds) =
      .ok (.comment (String.ofList ('/' :: '/' :: ds.takeWhile (· ≠ '\n'))),
        ds.dropWhile (· ≠ '\n')) := fun _ => rfl
  refine ⟨_, none, ?_⟩
  have both := List.takeWhile_append_dropWhile (p := (· ≠ '\n')) (l := cs)
  rw [crlf_cons (by decide), cut, cut]
  cases behind : cs.dropWhile (· ≠ '\n') with
  | nil =>
    rw [behind, List.append_nil] at both
    rw [both] at none
    rw [crlf_of_not_mem none, behind]
    exact .inl ⟨rfl, rfl⟩
  | cons c more =>
    have newline : c = '\n' := by
      have stops := List.head?_dropWhile_not (· ≠ '\n') cs
      rw [behind] at stops
      simpa using stops
    subst newline
    rw [behind] at both
    obtain ⟨taken, left⟩ := Text.line_crlf none more
    rw [both] at taken left
    rw [taken, left]
    exact .inr ⟨more, rfl, rfl⟩

/-! ## All items -/

/-- The second items are the first ones, where each newline has a carriage return before it: at the end of a
line comment, or as a blank, or inside an item. -/
inductive Recut : List Item → List Item → Prop where
  | nil : Recut [] []
  | newline {items items' : List Item} : Recut items items' →
      Recut (.newline :: items) (.blank '\r' :: .newline :: items')
  | line {items items' : List Item} {body : List Char} : '\n' ∉ body → Recut items items' →
      Recut (.comment (String.ofList ('/' :: '/' :: body)) :: .newline :: items)
        (.comment (String.ofList ('/' :: '/' :: (body ++ ['\r']))) :: .newline :: items')
  | item {item item' : Item} {items items' : List Item} : item.Kept item' → Recut items items' →
      Recut (item :: items) (item' :: items')

theorem scan_fault {c : Char} {cs : List Char} {cause : ScanCause}
    (h : Item.next c cs = .error cause) : scan (c :: cs) = ([], some cause) := by
  rw [scan]
  split
  · next here =>
    rw [h] at here
    cases here
    rfl
  · next here =>
    rw [h] at here
    cases here

/-- Behind an item there is no escaped line end, if there is none in the source. -/
theorem Unescaped.of_next {c : Char} {cs rest : List Char} {item : Item}
    (h : Unescaped (c :: cs)) (next : Item.next c cs = .ok (item, rest)) : Unescaped rest :=
  Unescaped.of_append item.text ((Item.next_text next).1 ▸ h)

theorem scan_newline (cs : List Char) :
    scan ('\n' :: cs) = (.newline :: (scan cs).1, (scan cs).2) := scan_cons rfl

/-- A text is cut at the same seams with carriage returns before its newlines. -/
theorem scan_crlf (cs : List Char) (unescaped : Unescaped cs) :
    Recut (scan cs).1 (scan (crlf cs)).1 ∧ (scan (crlf cs)).2 = (scan cs).2 := by
  match cs with
  | [] =>
    rw [show crlf [] = [] from rfl, scan.eq_def]
    exact ⟨.nil, rfl⟩
  | c :: cs =>
    by_cases newline : c = '\n'
    · subst newline
      obtain ⟨recut, fault⟩ := scan_crlf cs unescaped.tail
      have blank : Item.next '\r' ('\n' :: crlf cs) = .ok (.blank '\r', '\n' :: crlf cs) := rfl
      rw [crlf_newline, scan_cons blank, scan_newline, scan_newline]
      exact ⟨.newline recut, fault⟩
    by_cases line : (c = '/' && cs.head? = some '/') = true
    · rw [crlf_cons newline]
      obtain ⟨body, none, ⟨next, next'⟩ | ⟨more, next, next'⟩⟩ := Item.next_line line
      · rw [scan_cons next, scan_cons next', scan.eq_def]
        refine ⟨.item (.plain ?_) .nil, rfl⟩
        rw [Item.text, String.toList_ofList]
        exact List.not_mem_cons_of_ne_of_not_mem (by decide)
          (List.not_mem_cons_of_ne_of_not_mem (by decide) none)
      · have shorter := (Item.next_text next).2
        obtain ⟨recut, fault⟩ := scan_crlf more (unescaped.of_next next).tail
        rw [scan_cons next, scan_cons next', scan_newline, scan_newline]
        exact ⟨.line none recut, fault⟩
    · have both := Item.next_crlf unescaped.tail newline line
      rw [crlf_cons newline]
      generalize next : Item.next c cs = first at both
      generalize next' : Item.next c (crlf cs) = second at both
      cases both with
      | fault cause =>
        rw [scan_fault next, scan_fault next']
        exact ⟨.nil, rfl⟩
      | item rest kept =>
        have shorter := (Item.next_text next).2
        obtain ⟨recut, fault⟩ := scan_crlf rest (unescaped.of_next next)
        rw [scan_cons next, scan_cons next']
        exact ⟨.item kept recut, fault⟩
termination_by cs.length
decreasing_by
  · exact Nat.lt_succ_self _
  · exact Nat.lt_succ_of_lt shorter
  · exact Nat.lt_succ_of_le shorter

end Typings
