import Typings.Proofs.Brackets.Nested
import Typings.Proofs.Members.Parts

/-!
# Texts that are laid out on lines

A text that depends on the indentation is laid out on lines if each of its lines is the margin of a level
and a content of its own, which is not empty and the same for every indentation. If braces count, the
level of a line is the number of braces that are open before it, one less where the line begins with a
closing brace. A text is either a number of whole lines (`Whole`) or goes on with the beginning of one
more (`Begun`); what is written at the end of one keeps it so (`Stands`), or goes on with the line that
is begun (`Goes`). What is true of each part is true of parts that are put together.
-/

namespace Typings

/-! ## Braces -/

/-- The braces that are open behind some characters, given how many are open before them. A closing
brace closes one, if any is open. -/
def openBraces (n : Nat) : List Char → Nat
  | [] => n
  | c :: cs => openBraces (if c = '\x7b' then n + 1 else if c = '\x7d' then n - 1 else n) cs

/-- The level of a line before which so many braces are open: one less if it begins with a closing
brace. -/
def levelOf (n : Nat) (line : List Char) : Nat := if line.head? = some '\x7d' then n - 1 else n

theorem openBraces_append (n : Nat) (cs ds : List Char) :
    openBraces n (cs ++ ds) = openBraces (openBraces n cs) ds := by
  induction cs generalizing n with
  | nil => rfl
  | cons c cs ih => exact ih _

theorem openBraces_of_not_mem (n : Nat) {cs : List Char} (opening : '\x7b' ∉ cs) (closing : '\x7d' ∉ cs) :
    openBraces n cs = n := by
  induction cs generalizing n with
  | nil => rfl
  | cons c cs ih =>
    rw [openBraces, if_neg (List.ne_of_not_mem_cons opening).symm,
      if_neg (List.ne_of_not_mem_cons closing).symm]
    exact ih n (List.not_mem_of_not_mem_cons opening) (List.not_mem_of_not_mem_cons closing)

/-! ## Flat texts -/

/-- Neither a newline nor a brace stands in the text. -/
def Unmarked (text : String) : Prop := FreeOf ['\n', '\x7b', '\x7d'] text

instance : DecidablePred Unmarked := fun text => inferInstanceAs (Decidable (FreeOf _ text))

/-- A newline, and a brace if braces count. -/
def IsMark (counted : Prop) (m : Char) : Prop := m = '\n' ∨ counted ∧ (m = '\x7b' ∨ m = '\x7d')

/-- The text is a part of a line and has, if braces count, none. -/
def Flat (counted : Prop) (text : String) : Prop := ∀ m, IsMark counted m → m ∉ text.toList

namespace Flat

variable {counted : Prop} {u v : String}

/-- A text without marks is flat, whether braces count or not. -/
theorem of_unmarked (h : Unmarked u) : Flat counted u := by
  rintro m (rfl | ⟨-, rfl | rfl⟩)
  · exact h '\n' (by decide)
  · exact h '\x7b' (by decide)
  · exact h '\x7d' (by decide)

theorem line (h : Flat counted u) : '\n' ∉ u.toList := h '\n' (.inl rfl)

theorem openBraces_eq (h : Flat counted u) (yes : counted) (n : Nat) : openBraces n u.toList = n :=
  openBraces_of_not_mem n (h _ (.inr ⟨yes, .inl rfl⟩)) (h _ (.inr ⟨yes, .inr rfl⟩))

theorem append (h : Flat counted u) (h' : Flat counted v) : Flat counted (u ++ v) := by
  intro m mark
  rw [String.toList_append]
  exact List.not_mem_append (h m mark) (h' m mark)

theorem intercalate {separator : String} (between : Flat counted separator) {texts : List String}
    (h : ∀ text ∈ texts, Flat counted text) : Flat counted (separator.intercalate texts) :=
  Text.intercalate_of (fun _ _ => List.not_mem_nil) append between h

theorem escapeEnd (h : Flat counted u) : Flat counted (String.ofList (escapeEnd u.toList)) := by
  intro m mark mem
  rw [String.toList_ofList] at mem
  refine h m mark (mem_of_mem_escapeEnd ?_ mem)
  rcases mark with rfl | ⟨-, rfl | rfl⟩ <;> decide

end Flat

/-! ## Lines -/

/-- A line: its level, and what stands on it behind the margin. -/
structure Line where
  level : Nat
  content : String

namespace Line

/-- The characters of the line. -/
def text (indent : String) (l : Line) : String := indentText indent l.level ++ l.content

/-- The characters of lines, each with the newline that ends it. -/
def texts (indent : String) (ls : List Line) : String :=
  String.join (ls.map fun l => l.text indent ++ "\n")

/-- The line has a content, which is on one line. -/
structure IsFull (l : Line) : Prop where
  content_ne : l.content ≠ ""
  line : '\n' ∉ l.content.toList

/-- From so many open braces on to so many, each line has the level that its place demands. -/
def Nested (n : Nat) : List Line → Nat → Prop
  | [], m => n = m
  | l :: ls, m => l.level = levelOf n l.content.toList ∧ Nested (openBraces n l.content.toList) ls m

theorem nested_append {n m : Nat} {ls ks : List Line} :
    Nested n (ls ++ ks) m ↔ ∃ k, Nested n ls k ∧ Nested k ks m := by
  induction ls generalizing n with
  | nil => exact ⟨fun h => ⟨n, rfl, h⟩, fun ⟨_, same, h⟩ => same ▸ h⟩
  | cons l ls ih =>
    constructor
    · rintro ⟨level, rest⟩
      obtain ⟨k, front, back⟩ := ih.1 rest
      exact ⟨k, ⟨level, front⟩, back⟩
    · rintro ⟨k, ⟨level, front⟩, back⟩
      exact ⟨level, ih.2 ⟨k, front, back⟩⟩

theorem nested_singleton {n m : Nat} {l : Line} :
    Nested n [l] m ↔ l.level = levelOf n l.content.toList ∧ openBraces n l.content.toList = m := Iff.rfl

theorem texts_append (indent : String) (ls ks : List Line) :
    texts indent (ls ++ ks) = texts indent ls ++ texts indent ks := by
  induction ls with
  | nil => exact (String.empty_append).symm
  | cons l ls ih =>
    simp only [texts, List.cons_append, List.map_cons, String.join_cons, String.append_assoc] at ih ⊢
    rw [ih]

theorem texts_singleton (indent : String) (l : Line) : texts indent [l] = l.text indent ++ "\n" := by
  simp [texts]

end Line

/-! ## Whole lines and lines that are begun -/

section

variable {counted : Prop} {n : Nat} {text u v : String → String}

/-- The text is a number of lines, with so many braces open behind them. -/
def Whole (counted : Prop) (n : Nat) (text : String → String) : Prop :=
  ∃ ls : List Line, (∀ l ∈ ls, l.IsFull) ∧ (counted → Line.Nested 0 ls n) ∧
    ∀ w, text w = Line.texts w ls

/-- The text is a number of lines and the beginning of one more, with so many braces open behind it. -/
def Begun (counted : Prop) (n : Nat) (text : String → String) : Prop :=
  ∃ (ls : List Line) (l : Line), (∀ k ∈ ls ++ [l], k.IsFull) ∧ (counted → Line.Nested 0 (ls ++ [l]) n) ∧
    ∀ w, text w = Line.texts w ls ++ l.text w

/-- Behind whole lines, the text is whole lines. -/
structure Stands (counted : Prop) (n : Nat) (u : String → String) : Prop where
  whole : ∀ {text}, Whole counted n text → Whole counted n fun w => text w ++ u w

/-- Behind a line that is begun, the text goes on with this line; it may end it and begin another, with
as many braces open in the end. -/
structure Goes (counted : Prop) (n : Nat) (u : String → String) : Prop where
  begun : ∀ {text}, Begun counted n text → Begun counted n fun w => text w ++ u w

/-- Behind whole lines and a margin, the text begins a line; it may end it and begin another. -/
structure Starts (counted : Prop) (n : Nat) (u : String → String) : Prop where
  begun : ∀ {text}, Whole counted n text → Begun counted n fun w => text w ++ (indentText w n ++ u w)

theorem Whole.nothing : Whole counted 0 fun _ => "" :=
  ⟨[], List.forall_mem_nil _, fun _ => rfl, fun _ => rfl⟩

theorem Begun.newline (h : Begun counted n text) : Whole counted n fun w => text w ++ "\n" := by
  obtain ⟨ls, l, full, nested, eq⟩ := h
  refine ⟨ls ++ [l], full, nested, fun w => ?_⟩
  show text w ++ "\n" = _
  rw [eq, Line.texts_append, Line.texts_singleton, String.append_assoc]

/-- A content behind the margin of its level begins a line. -/
theorem Whole.begin {k m : Nat} {content : String} (h : Whole counted n text) (some : content ≠ "")
    (line : '\n' ∉ content.toList)
    (level : counted → k = levelOf n content.toList ∧ openBraces n content.toList = m) :
    Begun counted m fun w => text w ++ (indentText w k ++ content) := by
  obtain ⟨ls, full, nested, eq⟩ := h
  refine ⟨ls, ⟨k, content⟩, ?_, fun yes => ?_, fun w => congrArg (· ++ _) (eq w)⟩
  · exact List.forall_mem_append.2 ⟨full, List.forall_mem_singleton.2 ⟨some, line⟩⟩
  · exact Line.nested_append.2 ⟨n, nested yes, Line.nested_singleton.2 (level yes)⟩

/-- A flat content begins a line at the level of the braces that are open. -/
theorem Whole.flat {content : String} (h : Whole counted n text) (some : content ≠ "")
    (flat : Flat counted content) : Begun counted n fun w => text w ++ (indentText w n ++ content) := by
  refine h.begin some flat.line fun yes => ⟨?_, flat.openBraces_eq yes n⟩
  refine (if_neg fun head => flat _ (.inr ⟨yes, .inr rfl⟩) ?_).symm
  exact List.mem_of_head? head

/-- A closing brace begins a line one level further out. -/
theorem Whole.closing (h : Whole counted (n + 1) text) :
    Begun counted n fun w => text w ++ (indentText w n ++ "\x7d") :=
  h.begin (by decide) (by decide) fun _ => ⟨rfl, rfl⟩

/-- More characters on the line that is begun. -/
theorem Begun.more {m : Nat} {more : String} (h : Begun counted n text) (line : '\n' ∉ more.toList)
    (braces : counted → openBraces n more.toList = m) :
    Begun counted m fun w => text w ++ more := by
  obtain ⟨ls, l, full, nested, eq⟩ := h
  obtain ⟨above, here⟩ := List.forall_mem_append.1 full
  obtain ⟨content_ne, within⟩ := List.forall_mem_singleton.1 here
  refine ⟨ls, ⟨l.level, l.content ++ more⟩, ?_, fun yes => ?_, fun w => ?_⟩
  · refine List.forall_mem_append.2 ⟨above, List.forall_mem_singleton.2 ⟨fun none => ?_, ?_⟩⟩
    · exact content_ne (String.append_eq_empty_iff.1 none).1
    · rw [String.toList_append]
      exact List.not_mem_append within line
  · obtain ⟨k, front, level, opened⟩ := Line.nested_append.1 (nested yes)
    refine Line.nested_append.2 ⟨k, front, ?_, ?_⟩
    · have head : (l.content.toList ++ more.toList).head? = l.content.toList.head? := by
        cases chars : l.content.toList with
        | nil => exact absurd (String.toList_eq_nil_iff.1 chars) content_ne
        | cons => rfl
      rw [String.toList_append, levelOf, head]
      exact level
    · rw [String.toList_append, openBraces_append]
      exact opened ▸ braces yes
  · show text w ++ more = _
    rw [eq, Line.text, Line.text, String.append_assoc, String.append_assoc]

theorem Begun.opening (h : Begun counted n text) : Begun counted (n + 1) fun w => text w ++ "\x7b" :=
  h.more (by decide) fun _ => rfl

namespace Goes

theorem flat {more : String} (h : Flat counted more) : Goes counted n fun _ => more :=
  ⟨fun begun => begun.more h.line (h.openBraces_eq · n)⟩

/-- A word of the declarations, whether braces count or not. -/
theorem word {word : String} (h : Unmarked word) : Goes counted n fun _ => word := flat (.of_unmarked h)

theorem nothing : Goes counted n fun _ => "" := word (by decide)

theorem append (h : Goes counted n u) (h' : Goes counted n v) : Goes counted n fun w => u w ++ v w := by
  refine ⟨fun begun => ?_⟩
  have both := h'.begun (h.begun begun)
  simp only [String.append_assoc] at both
  exact both

theorem between {before after : String} (h : Goes counted n u) (flat : Flat counted before)
    (flat' : Flat counted after) : Goes counted n fun w => before ++ u w ++ after :=
  ((Goes.flat flat).append h).append (.flat flat')

theorem intercalate {α : Type} {f : String → α → String} {separator : String}
    (flat : Flat counted separator) {xs : List α} (h : ∀ x ∈ xs, Goes counted n fun w => f w x) :
    Goes counted n fun w => separator.intercalate (xs.map (f w)) := by
  induction xs with
  | nil => exact nothing
  | cons x xs ih =>
    obtain ⟨first, rest⟩ := List.forall_mem_cons.1 h
    cases xs with
    | nil =>
      simp only [List.map_cons, List.map_nil, String.intercalate_singleton]
      exact first
    | cons y xs =>
      simp only [List.map_cons, String.intercalate_cons_cons] at ih ⊢
      exact (first.append (.flat flat)).append (ih rest)

end Goes

namespace Starts

theorem flat {front : String} (some : front ≠ "") (h : Flat counted front) :
    Starts counted n fun _ => front :=
  ⟨fun whole => whole.flat some h⟩

theorem append (h : Starts counted n u) (h' : Goes counted n v) :
    Starts counted n fun w => u w ++ v w := by
  refine ⟨fun whole => ?_⟩
  have both := h'.begun (h.begun whole)
  simp only [String.append_assoc] at both ⊢
  exact both

/-- A beginning that may be empty, unless what follows it begins a line itself. -/
theorem prepend {front : String} (flat : Flat counted front) (h : Goes counted n u)
    (start : front = "" → Starts counted n u) : Starts counted n fun w => front ++ u w := by
  by_cases none : front = ""
  · subst none
    simp only [String.empty_append]
    exact start rfl
  · exact (Starts.flat none flat).append h

end Starts

namespace Stands

theorem nothing : Stands counted n fun _ => "" := by
  refine ⟨fun whole => ?_⟩
  simp only [String.append_empty]
  exact whole

theorem append (h : Stands counted n u) (h' : Stands counted n v) :
    Stands counted n fun w => u w ++ v w := by
  refine ⟨fun whole => ?_⟩
  have both := h'.whole (h.whole whole)
  simp only [String.append_assoc] at both
  exact both

theorem join {α : Type} {f : String → α → String} {xs : List α}
    (h : ∀ x ∈ xs, Stands counted n fun w => f w x) :
    Stands counted n fun w => String.join (xs.map (f w)) := by
  induction xs with
  | nil => exact nothing
  | cons x xs ih =>
    obtain ⟨first, rest⟩ := List.forall_mem_cons.1 h
    simp only [List.map_cons, String.join_cons]
    exact first.append (ih rest)

/-- A line at the level of the braces that are open: what begins it, what it goes on with, and its
end. -/
theorem line (h : Starts counted n u) (h' : Goes counted n v) :
    Stands counted n fun w => indentText w n ++ u w ++ v w ++ "\n" := by
  refine ⟨fun whole => ?_⟩
  have line := (h'.begun (h.begun whole)).newline
  simp only [String.append_assoc] at line ⊢
  exact line

end Stands

/-! ## Comments -/

theorem Goes.paramNote {note : String} (h : Flat counted note) :
    Goes counted n fun _ => paramNote note := by
  unfold Typings.paramNote
  split
  · exact nothing
  · exact ((word (by decide)).append (flat h.escapeEnd)).append (word (by decide))

/-- The end of a line, without its newline. -/
theorem exists_lineEndText {note : String} (h : Flat counted note) :
    ∃ behind, Flat counted behind ∧ lineEndText note = behind ++ "\n" := by
  unfold lineEndText
  split
  · exact ⟨"", .of_unmarked (by decide), rfl⟩
  · exact ⟨" // " ++ note, (Flat.of_unmarked (by decide)).append h, rfl⟩

/-- A documentation block is laid out on lines at one level. -/
theorem Stands.docBlock {lines : List String} (h : ∀ line ∈ lines, Flat counted line) :
    Stands counted n fun w => docBlock (indentText w n) lines := by
  have mark : ∀ front : String, front ≠ "" → Flat counted front →
      Stands counted n fun w => indentText w n ++ (front ++ "\n") := by
    intro front some flat
    have line := line (.flat some flat) (.nothing : Goes counted n fun _ => "")
    simp only [String.append_empty, String.append_assoc] at line
    exact line
  have said : ∀ line ∈ lines, Stands counted n fun w => indentText w n ++ docLine line := by
    intro line mem
    unfold docLine
    split
    · exact mark " *" (by decide) (.of_unmarked (by decide))
    · refine mark (" * " ++ String.ofList (escapeEnd line.toList)) (fun none => ?_) ?_
      · exact absurd (String.append_eq_empty_iff.1 none).1 (by decide)
      · exact (Flat.of_unmarked (by decide)).append (h line mem).escapeEnd
  unfold Typings.docBlock
  cases lines with
  | nil => exact nothing
  | cons first rest =>
    have opens := mark "/**" (by decide) (.of_unmarked (by decide))
    have close := mark " */" (by decide) (.of_unmarked (by decide))
    have block := (opens.append (join said)).append close
    simp only [String.append_assoc] at block ⊢
    exact block

end

end Typings
