import Typings.Proofs.Grouped.Placed

/-!
# Specifications and comments on lines of a source

A specification stands on lines of its own, each with the word `type` before it or all of them in one
group, and comments stand on lines above it (`SpecText`). Both sources are cut at their line ends and laid
out line by line (`LaysOut`), so the layout of each is known from those of the specifications alone
(`SpecText.ofSource_separately`, `SpecText.ofSource_inGroup`).
-/

namespace Typings

/-! ## The sources -/

/-- A type specification as it is written, and the comments on the lines above it. -/
structure SpecText where
  comments : List String
  text : String

/-- A comment that ends with its line. -/
def IsLineComment (text : String) : Prop := ['/', '/'] <+: text.toList ∧ '\n' ∉ text.toList

instance (text : String) : Decidable (IsLineComment text) :=
  inferInstanceAs (Decidable (['/', '/'] <+: text.toList ∧ '\n' ∉ text.toList))

/-- The type specification that a whole source is. -/
def Parser.typeSpecAlone : Parser TypeSpec := do
  let spec ← typeStatement none
  if ← isAt .eof then pure spec else fail .trailingInput

namespace SpecText

/-- The text begins with a name and is a type specification, and the comments are those of lines. -/
structure IsWritten (s : SpecText) : Prop where
  comments : ∀ c ∈ s.comments, IsLineComment c
  begins : s.text.toList.head?.any beginsIdent = true
  spec : (Parser.typeSpecAlone.run s.text).isOk = true

instance (s : SpecText) : Decidable s.IsWritten :=
  decidable_of_iff ((∀ c ∈ s.comments, IsLineComment c) ∧
    s.text.toList.head?.any beginsIdent = true ∧ (Parser.typeSpecAlone.run s.text).isOk = true)
    ⟨fun ⟨comments, begins, spec⟩ => ⟨comments, begins, spec⟩,
      fun h => ⟨h.comments, h.begins, h.spec⟩⟩

/-- The lines of a specification and its comments: a margin before each comment, and a text before the
specification. -/
def lines (margin front : String) (s : SpecText) : String :=
  String.join (s.comments.map fun c => margin ++ c ++ "\n") ++ (front ++ s.text ++ "\n")

/-- Each specification in a declaration of its own. -/
def separately (ss : List SpecText) : String := String.join (ss.map (lines "" "type "))

/-- All specifications in one declaration, with a margin before each of them and each comment. -/
def inGroup (margin : String) (ss : List SpecText) : String :=
  "type (\n" ++ String.join (ss.map (lines margin margin)) ++ ")"

end SpecText

/-! ## Items at the start of a line -/

theorem scan_nil : scan [] = ([], none) := by rw [scan.eq_def]

theorem scan_blanks {margin : List Char} (blank : ∀ c ∈ margin, isSpacing c = true) (cs : List Char) :
    scan (margin ++ cs) = (margin.map .blank ++ (scan cs).1, (scan cs).2) := by
  induction margin with
  | nil => rfl
  | cons c margin ih =>
    obtain ⟨here, behind⟩ := List.forall_mem_cons.1 blank
    have other : c ≠ '\n' := by
      rintro rfl
      cases here
    have next : Item.next c (margin ++ cs) = .ok (.blank c, margin ++ cs) := by
      rw [Item.next, if_neg other, if_pos here]
    rw [List.cons_append, scan_cons next, ih behind]
    rfl

theorem scan_comment {text : String} (h : IsLineComment text) :
    scan text.toList = ([.comment text], none) := by
  obtain ⟨⟨body, chars⟩, line⟩ := h
  have flat : ∀ c ∈ '/' :: body, decide (c ≠ '\n') = true := by
    intro c mem
    refine decide_eq_true fun same => line ?_
    rw [← chars, ← same]
    exact List.mem_cons_of_mem _ mem
  have next : Item.next '/' ('/' :: body) = .ok (.comment text, []) := by
    have whole : ('/' :: body ++ []).takeWhile (· ≠ '\n') = '/' :: body ++ [] :=
      List.takeWhile_append_of_pos flat
    have nothing : ('/' :: body ++ []).dropWhile (· ≠ '\n') = [] := List.dropWhile_append_of_pos flat
    rw [List.append_nil] at whole nothing
    have again : String.ofList ('/' :: '/' :: body) = text := by
      rw [show '/' :: '/' :: body = text.toList from chars, String.ofList_toList]
    rw [Item.next, if_neg (by decide), if_neg (by decide), if_pos (by rfl), whole, nothing, again]
  rw [← chars]
  show scan ('/' :: '/' :: body) = _
  rw [scan_cons next, scan_nil]

theorem ofItems_blanks {margin : List Char} (blank : ∀ c ∈ margin, isSpacing c = true) (p : Position)
    (last : Option Lexeme) (items : List Item) :
    Layout.ofItems p last (margin.map .blank ++ items) =
      Layout.ofItems (p.right margin.length) last items := by
  induction margin generalizing p with
  | nil => rfl
  | cons c margin ih =>
    obtain ⟨here, behind⟩ := List.forall_mem_cons.1 blank
    have other : c ≠ '\n' := by
      rintro rfl
      cases here
    have stop : (Item.blank c).stop p = p.right 1 := by
      show Position.step p c = _
      rw [Position.step, if_neg other]
      rfl
    rw [List.map_cons, List.cons_append, Layout.ofItems, stop, ih behind, Position.right, Position.right,
      Position.right, List.length_cons, Nat.add_assoc, Nat.add_comm 1]

/-! ## Lines below lines -/

/-- The characters are whole lines: whatever is below them, they are so many lines, and with so many
lines above them they have these tokens and comments. -/
def LaysOut (cs : List Char) (height : Nat) (tokens : Nat → List Token) (comments : Nat → List Comment) :
    Prop :=
  ∃ items, (∀ more, scan (cs ++ more) = (items ++ (scan more).1, (scan more).2)) ∧
    ∀ n more, Layout.ofItems ⟨n + 1, 1⟩ none (items ++ more) =
      let below := Layout.ofItems ⟨n + height + 1, 1⟩ none more
      ⟨tokens n ++ below.tokens, comments n ++ below.comments, below.stop⟩

namespace LaysOut

variable {cs cs' : List Char} {height height' : Nat} {tokens tokens' : Nat → List Token}
  {comments comments' : Nat → List Comment}

theorem nothing : LaysOut [] 0 (fun _ => []) (fun _ => []) :=
  ⟨[], fun _ => rfl, fun _ _ => rfl⟩

theorem append (h : LaysOut cs height tokens comments) (h' : LaysOut cs' height' tokens' comments') :
    LaysOut (cs ++ cs') (height + height') (fun n => tokens n ++ tokens' (n + height))
      (fun n => comments n ++ comments' (n + height)) := by
  obtain ⟨items, cut, laid⟩ := h
  obtain ⟨items', cut', laid'⟩ := h'
  refine ⟨items ++ items', fun more => ?_, fun n more => ?_⟩
  · rw [List.append_assoc, cut, cut', List.append_assoc]
  · rw [List.append_assoc, laid, laid']
    simp only [List.append_assoc, Nat.add_assoc]

/-- A text that ends as a line does. -/
theorem line {items : List Item} (cut : scan cs = (items, none))
    (laid : ∀ n, let l := Layout.ofItems ⟨n + 1, 1⟩ none items
      l.tokens = tokens n ∧ l.comments = comments n ∧ l.stop.line = n + height) :
    LaysOut (cs ++ ['\n']) height tokens comments := by
  refine ⟨items ++ [.newline], fun more => ?_, fun n more => ?_⟩
  · rw [List.append_assoc, List.append_assoc, List.singleton_append, List.singleton_append,
      scan_append_newline (by rw [cut]), cut]
  · obtain ⟨first, second, stop⟩ := laid n
    rw [List.append_assoc, List.singleton_append, Layout.ofItems_append_newline]
    dsimp only
    rw [first, second, stop]

/-- The layout of a source of lines with a last line below them that is not ended. -/
theorem ofSource {source : String} (h : LaysOut cs height tokens comments) {ending : List Char}
    {items : List Item} (cut : scan ending = (items, none)) (text : source.toList = cs ++ ending) :
    Layout.ofSource source = .ok
      (let below := Layout.ofItems ⟨height + 1, 1⟩ none items
      ⟨tokens 0 ++ below.tokens, comments 0 ++ below.comments, below.stop⟩) := by
  obtain ⟨before, scanned, laid⟩ := h
  refine Layout.ofSource_eq_ok.2 ⟨?_, ?_⟩
  · rw [text, scanned, cut]
  · have whole := laid 0 items
    rw [Nat.zero_add, Nat.zero_add] at whole
    rw [text, scanned, cut]
    exact whole.symm

end LaysOut

/-! ## The lines of a specification -/

/-- What stands before a specification: blanks, or the word `type` with one behind it; and the lexemes
there. -/
inductive IsFront : String → List Lexeme → Prop where
  | margin {front : String} : (∀ c ∈ front.toList, isSpacing c = true) → IsFront front []
  | word : IsFront "type " [.keyword .typeKw]

/-- Lexemes at the start of a line. -/
def tokensAt (n : Nat) (ws : List Lexeme) : List Token := ws.map fun w => ⟨w, ⟨n + 1, 1⟩, false⟩

/-- Comments on lines of their own, below so many lines and behind so many columns. -/
def commentLines (n columns : Nat) : List String → List Comment
  | [] => []
  | c :: cs => ⟨c, ⟨n + 1, columns + 1⟩, n + 1, true⟩ :: commentLines (n + 1) columns cs

namespace IsFront

variable {front : String} {ws : List Lexeme}

/-- The items of what stands in front, and the layout of a word behind it. -/
theorem exists_items (h : IsFront front ws) : ∃ before : List Item,
    (∀ cs, scan (front.toList ++ cs) = (before ++ (scan cs).1, (scan cs).2)) ∧
      ∀ n w items, Layout.ofItems ⟨n + 1, 1⟩ none (before ++ .word w :: items) =
        (Layout.ofItems (Position.start.placed n front.length) none (.word w :: items)).withTokens
          (tokensAt n ws) := by
  cases h with
  | margin blank =>
    refine ⟨front.toList.map .blank, scan_blanks blank, fun n w items => ?_⟩
    have place : (⟨n + 1, 1⟩ : Position).right front.toList.length =
        Position.start.placed n front.length := by
      rw [String.length_toList, Position.right, Position.placed, Nat.add_comm n]
      rfl
    rw [ofItems_blanks blank, place]
    rfl
  | word =>
    refine ⟨[.word (.keyword .typeKw), .blank ' '], fun cs => ?_, fun n w items => ?_⟩
    · obtain ⟨c, inside, chars, next⟩ := Item.next_keyword .typeKw (.blank cs)
      have text : "type ".toList ++ cs = c :: (inside ++ ' ' :: cs) := by
        rw [← List.cons_append, ← chars]
        rfl
      have blank : Item.next ' ' cs = .ok (.blank ' ', cs) := rfl
      rw [text, scan_cons next, scan_cons blank]
      rfl
    · have place : (Item.blank ' ').stop ((Item.word (.keyword .typeKw)).stop ⟨n + 1, 1⟩) =
          Position.start.placed n "type ".length := by
        show (⟨n + 1, 6⟩ : Position) = ⟨1 + n, 6⟩
        rw [Nat.add_comm]
      rw [List.cons_append, List.singleton_append, Layout.ofItems, Layout.ofItems, place]
      rfl

end IsFront

namespace SpecText

variable {s : SpecText} {margin front : String} {ws : List Lexeme}

/-- The layout of the specification alone. -/
def layout (s : SpecText) : Layout := .ofItems .start none (scan s.text.toList).1

/-- How many lines a specification takes with its comments. -/
def height (s : SpecText) : Nat := s.comments.length + s.layout.stop.line

theorem IsWritten.exists_spec (h : s.IsWritten) : ∃ spec, Parser.typeSpecAlone.run s.text = .ok spec := by
  have isOk := h.spec
  cases run : Parser.typeSpecAlone.run s.text with
  | ok spec => exact ⟨spec, rfl⟩
  | error e =>
    rw [run] at isOk
    cases isOk

/-- The text begins with a word, and all of it is cut. -/
theorem IsWritten.exists_items (h : s.IsWritten) : ∃ word items,
    scan s.text.toList = (.word (wordLexeme word) :: items, none) := by
  obtain ⟨spec, run⟩ := h.exists_spec
  have complete : (scan s.text.toList).2 = none := by
    unfold Parser.run at run
    split at run
    · cases run
    · next l scanned => exact (Layout.ofSource_eq_ok.1 scanned).1
  have begins := h.begins
  cases chars : s.text.toList with
  | nil =>
    rw [chars] at begins
    cases begins
  | cons c cs =>
    rw [chars] at begins complete
    have next := Item.next_word begins cs
    rw [scan_cons next] at complete ⊢
    exact ⟨_, _, Prod.ext rfl complete⟩

theorem laysOut_comment (blank : ∀ c ∈ margin.toList, isSpacing c = true) {c : String}
    (h : IsLineComment c) :
    LaysOut (margin.toList ++ c.toList ++ ['\n']) 1 (fun _ => [])
      (fun n => [⟨c, ⟨n + 1, margin.length + 1⟩, n + 1, true⟩]) := by
  have cut : scan (margin.toList ++ c.toList) = (margin.toList.map .blank ++ [.comment c], none) := by
    rw [scan_blanks blank, scan_comment h]
  refine .line cut fun n => ?_
  have stop : (Item.comment c).stop ((⟨n + 1, 1⟩ : Position).right margin.toList.length) =
      (⟨n + 1, 1⟩ : Position).right (margin.toList.length + c.toList.length) := by
    show Position.after _ c.toList = _
    rw [Position.after_eq_right _ h.2, Position.right, Position.right, Position.right, Nat.add_assoc]
  have flat : ¬c.toList.contains '\n' = true := by
    rw [List.contains_iff_mem]
    exact h.2
  rw [ofItems_blanks blank, Layout.ofItems, if_neg flat, stop, String.length_toList, Position.right,
    Nat.add_comm 1]
  exact ⟨rfl, rfl, rfl⟩

theorem laysOut_comments (blank : ∀ c ∈ margin.toList, isSpacing c = true) {cs : List String}
    (all : ∀ c ∈ cs, IsLineComment c) :
    LaysOut (String.join (cs.map fun c => margin ++ c ++ "\n")).toList cs.length (fun _ => [])
      (fun n => commentLines n margin.length cs) := by
  induction cs with
  | nil => exact .nothing
  | cons c cs ih =>
    obtain ⟨here, behind⟩ := List.forall_mem_cons.1 all
    have both := (laysOut_comment blank here).append (ih behind)
    rw [Nat.add_comm] at both
    rw [List.map_cons, String.join_cons, String.toList_append, String.toList_append,
      String.toList_append]
    exact both

/-- The specification is laid out as it is alone, behind what stands in front. -/
theorem IsWritten.laysOut_text (h : s.IsWritten) (stands : IsFront front ws) :
    LaysOut (front.toList ++ s.text.toList ++ ['\n']) s.layout.stop.line
      (fun n => tokensAt n ws ++ (s.layout.placed n front.length).tokens)
      (fun n => (s.layout.placed n front.length).comments) := by
  obtain ⟨word, items, cut⟩ := h.exists_items
  obtain ⟨before, cutBefore, laid⟩ := stands.exists_items
  have whole : scan (front.toList ++ s.text.toList) =
      (before ++ .word (wordLexeme word) :: items, none) := by
    rw [cutBefore, cut]
  refine .line whole fun n => ?_
  have alone : s.layout = Layout.ofItems .start none (.word (wordLexeme word) :: items) := by
    rw [layout, cut]
  rw [laid, Layout.ofItems_placed (Nat.le_refl _), ← alone]
  exact ⟨rfl, rfl, Nat.add_comm ..⟩

theorem IsWritten.laysOut_lines (h : s.IsWritten) (blank : ∀ c ∈ margin.toList, isSpacing c = true)
    (stands : IsFront front ws) :
    LaysOut (s.lines margin front).toList s.height
      (fun n => tokensAt (n + s.comments.length) ws ++
        (s.layout.placed (n + s.comments.length) front.length).tokens)
      (fun n => commentLines n margin.length s.comments ++
        (s.layout.placed (n + s.comments.length) front.length).comments) := by
  have both := (laysOut_comments blank h.comments).append (h.laysOut_text stands)
  rw [lines, String.toList_append, String.toList_append, String.toList_append]
  exact both

/-! ## The layouts of the sources -/

/-- The tokens of specifications below so many lines, each behind lexemes that are so many columns
wide. -/
def tokens (ws : List Lexeme) (columns : Nat) : Nat → List SpecText → List Token
  | _, [] => []
  | n, s :: ss =>
    tokensAt (n + s.comments.length) ws ++ (s.layout.placed (n + s.comments.length) columns).tokens ++
      tokens ws columns (n + s.height) ss

/-- The comments above specifications and in them: below so many lines, and behind a margin and a text in
front of the specification that are so many columns wide. -/
def commentsOf (margin columns : Nat) : Nat → List SpecText → List Comment
  | _, [] => []
  | n, s :: ss =>
    commentLines n margin s.comments ++ (s.layout.placed (n + s.comments.length) columns).comments ++
      commentsOf margin columns (n + s.height) ss

theorem laysOut_all {ss : List SpecText} (written : ∀ s ∈ ss, s.IsWritten)
    (blank : ∀ c ∈ margin.toList, isSpacing c = true) (stands : IsFront front ws) :
    ∃ height, LaysOut (String.join (ss.map (lines margin front))).toList height
      (fun n => tokens ws front.length n ss)
      (fun n => commentsOf margin.length front.length n ss) := by
  induction ss with
  | nil => exact ⟨0, .nothing⟩
  | cons s ss ih =>
    obtain ⟨here, behind⟩ := List.forall_mem_cons.1 written
    obtain ⟨height, others⟩ := ih behind
    refine ⟨s.height + height, ?_⟩
    rw [List.map_cons, String.join_cons, String.toList_append]
    exact (here.laysOut_lines blank stands).append others

/-- The layout of specifications in declarations of their own. -/
theorem ofSource_separately {ss : List SpecText} (written : ∀ s ∈ ss, s.IsWritten) :
    ∃ l, Layout.ofSource (separately ss) = .ok l ∧ l.tokens = tokens [.keyword .typeKw] 5 0 ss ∧
      l.comments = commentsOf 0 5 0 ss := by
  obtain ⟨height, laid⟩ : ∃ height, LaysOut (String.join (ss.map (lines "" "type "))).toList height
      (fun n => tokens [.keyword .typeKw] 5 n ss) (fun n => commentsOf 0 5 n ss) :=
    laysOut_all written (List.forall_mem_nil _) .word
  exact ⟨_, laid.ofSource scan_nil (List.append_nil _).symm, List.append_nil _, List.append_nil _⟩

/-- The layout of specifications in one declaration. -/
theorem ofSource_inGroup {ss : List SpecText} (written : ∀ s ∈ ss, s.IsWritten)
    (blank : ∀ c ∈ margin.toList, isSpacing c = true) :
    ∃ l ending, Layout.ofSource (inGroup margin ss) = .ok l ∧
      l.tokens = [⟨.keyword .typeKw, ⟨1, 1⟩, false⟩, ⟨.op .leftParen, ⟨1, 6⟩, false⟩] ++
        tokens [] margin.length 1 ss ++ ending ∧
      ending.map Token.lexeme = [.op .rightParen, .op .semicolon] ∧
      l.comments = commentsOf margin.length margin.length 1 ss := by
  obtain ⟨height, laid⟩ := laysOut_all written blank (.margin blank)
  have first : scan "type (".toList =
      ([.word (.keyword .typeKw), .blank ' ', .word (.op .leftParen)], none) :=
    @scan_spaced [.keyword .typeKw, .op .leftParen] (by simp [Lexeme.IsWord])
  have last : scan [')'] = ([.word (.op .rightParen)], none) :=
    @scan_spaced [.op .rightParen] (by simp [Lexeme.IsWord])
  have opening : LaysOut ("type (".toList ++ ['\n']) 1
      (fun n => [⟨.keyword .typeKw, ⟨n + 1, 1⟩, false⟩, ⟨.op .leftParen, ⟨n + 1, 6⟩, false⟩])
      (fun _ => []) := .line first fun n => ⟨rfl, rfl, rfl⟩
  have text : (inGroup margin ss).toList = "type (".toList ++ ['\n'] ++
      (String.join (ss.map (lines margin margin))).toList ++ [')'] := by
    rw [inGroup, String.toList_append, String.toList_append]
    rfl
  exact ⟨_, _, (opening.append laid).ofSource last text, rfl, rfl, List.append_nil _⟩

end SpecText

end Typings
