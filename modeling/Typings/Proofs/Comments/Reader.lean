import Mathlib.Data.List.TakeWhile
import Typings.Proofs.Members.Parts
import Typings.Proofs.Precedence.Words

/-!
# Taking the comments out of a text

`withoutComments` goes through a text from left to right and takes out each documentation block that
has its lines for itself, and each comment behind something on a line. Lines end at a newline, a
carriage return, a line separator or a paragraph separator; a comment behind something ends there too.

`Strips notes u v` says what becomes of the text `u` within a line, whatever follows there: it becomes
`v`, if each of the comments `notes` behind its lines stands on one line (`IsOneLine`), and something
else, if one does not (`Leaks`). `Clears notes u v` says so for whole lines. Texts without a slash stay as
they are (`Strips.code`).
-/

namespace Typings

/-! ## The reader -/

/-- A character of an indentation. -/
def isIndentation (c : Char) : Bool := c = ' ' || c = '\t'

/-- A character that ends a line. -/
def isLineEnd (c : Char) : Bool := c = '\n' || c = '\r' || c = '\u2028' || c = '\u2029'

/-- What is behind the next end mark of a block comment. -/
def behindBlock? : List Char → Option (List Char)
  | '*' :: '/' :: cs => some cs
  | _ :: cs => behindBlock? cs
  | [] => none

/-- What is behind a documentation block that has its lines for itself, from the indentation before it
up to the end of the line behind it. -/
def behindDoc? (cs : List Char) : Option (List Char) :=
  match cs.dropWhile isIndentation with
  | '/' :: '*' :: '*' :: cs =>
    match behindBlock? ('*' :: cs) with
    | some (c :: cs) => if isLineEnd c then some cs else none
    | _ => none
  | _ => none

/-- What is behind a comment with a space before it: what is behind its end mark, or the end of the line
and what is behind that. -/
def behindComment? : List Char → Option (List Char)
  | ' ' :: '/' :: '*' :: cs => behindBlock? cs
  | ' ' :: '/' :: '/' :: cs => some (cs.dropWhile fun c => !isLineEnd c)
  | _ => none

theorem length_behindBlock? {cs rest : List Char} (h : behindBlock? cs = some rest) :
    rest.length < cs.length := by
  fun_induction behindBlock? cs with
  | case1 cs =>
    cases h
    simp only [List.length_cons]
    omega
  | case2 c cs _ ih => exact Nat.lt_succ_of_lt (ih h)
  | case3 => cases h

theorem length_behindDoc? {cs rest : List Char} (h : behindDoc? cs = some rest) :
    rest.length < cs.length := by
  have shorter : (cs.dropWhile isIndentation).length ≤ cs.length :=
    (List.dropWhile_suffix isIndentation).length_le
  unfold behindDoc? at h
  split at h
  · next inside here =>
    split at h
    · next behind =>
      obtain ⟨-, same⟩ := Option.ite_none_right_eq_some.1 h
      cases same
      have block := length_behindBlock? behind
      rw [here] at shorter
      simp only [List.length_cons] at block shorter
      omega
    · cases h
  · cases h

theorem length_behindComment? {cs rest : List Char} (h : behindComment? cs = some rest) :
    rest.length < cs.length := by
  unfold behindComment? at h
  split at h
  · next inside =>
    have block := length_behindBlock? h
    simp only [List.length_cons]
    omega
  · next inside =>
    cases h
    have shorter : (inside.dropWhile fun c => !isLineEnd c).length ≤ inside.length :=
      (List.dropWhile_suffix _).length_le
    simp only [List.length_cons]
    omega
  · cases h

/-- What is behind a comment that begins here, and whether a line starts there. -/
def behind? (lineStart : Bool) (cs : List Char) : Option (Bool × List Char) :=
  match if lineStart then behindDoc? cs else none with
  | some rest => some (true, rest)
  | none => (behindComment? cs).map fun rest => (false, rest)

theorem length_behind? {lineStart start : Bool} {cs rest : List Char}
    (h : behind? lineStart cs = some (start, rest)) : rest.length < cs.length := by
  unfold behind? at h
  split at h
  · next doc =>
    cases h
    cases lineStart with
    | true => exact length_behindDoc? doc
    | false => cases doc
  · obtain ⟨rest, comment, same⟩ := Option.map_eq_some_iff.1 h
    cases same
    exact length_behindComment? comment

/-- The text without its comments: without each documentation block that has its lines for itself,
together with these lines, and without each comment on a line, together with the space before it.
`lineStart` says that the text is at the start of a line. -/
def withoutComments (lineStart : Bool) (cs : List Char) : List Char :=
  match _comment : behind? lineStart cs with
  | some (start, rest) => withoutComments start rest
  | none =>
    match cs with
    | [] => []
    | c :: cs => c :: withoutComments (isLineEnd c) cs
termination_by cs.length
decreasing_by
  · exact length_behind? _comment
  · exact Nat.lt_succ_self _

/-- The whole text without its comments. -/
def stripComments (text : String) : String := String.ofList (withoutComments true text.toList)

section steps

variable {b : Bool} {c : Char} {cs rest : List Char}

theorem withoutComments_of_behind {start : Bool} (h : behind? b cs = some (start, rest)) :
    withoutComments b cs = withoutComments start rest := by
  rw [withoutComments]
  split
  · next found =>
    rw [h] at found
    cases found
    rfl
  · next none =>
    rw [h] at none
    cases none

theorem withoutComments_nil (b : Bool) : withoutComments b [] = [] := by
  rw [withoutComments]
  split
  · next found => cases b <;> cases found
  · rfl

theorem withoutComments_cons (h : behind? b (c :: cs) = none) :
    withoutComments b (c :: cs) = c :: withoutComments (isLineEnd c) cs := by
  rw [withoutComments]
  split
  · next found =>
    rw [h] at found
    cases found
  · rfl

theorem withoutComments_of_doc (h : behindDoc? cs = some rest) :
    withoutComments true cs = withoutComments true rest :=
  withoutComments_of_behind (by rw [behind?, if_pos rfl, h])

theorem behind?_of_quiet (quiet : behindDoc? cs = none) :
    behind? b cs = (behindComment? cs).map fun rest => (false, rest) := by
  cases b with
  | false => rfl
  | true => rw [behind?, if_pos rfl, quiet]

/-- Where no documentation block is, it does not matter whether a line starts. -/
theorem withoutComments_of_quiet (quiet : behindDoc? cs = none) :
    withoutComments b cs = withoutComments false cs := by
  cases comment : behindComment? cs with
  | some rest =>
    have found : ∀ b, behind? b cs = some (false, rest) := by
      intro b
      rw [behind?_of_quiet quiet, comment]
      rfl
    rw [withoutComments_of_behind (found b), withoutComments_of_behind (found false)]
  | none =>
    have none : ∀ b, behind? b cs = none := by
      intro b
      rw [behind?_of_quiet quiet, comment]
      rfl
    cases cs with
    | nil => rw [withoutComments_nil, withoutComments_nil]
    | cons c cs => rw [withoutComments_cons (none b), withoutComments_cons (none false)]

theorem withoutComments_of_comment (quiet : behindDoc? cs = none) (h : behindComment? cs = some rest) :
    withoutComments b cs = withoutComments false rest :=
  withoutComments_of_behind (by rw [behind?_of_quiet quiet, h]; rfl)

end steps

/-! ## What a text is followed by -/

/-- Neither a documentation block with lines of its own begins here, nor what would make a comment of
a space. -/
structure Continues (cs : List Char) : Prop where
  quiet : behindDoc? cs = none
  head : cs.head? ≠ some '/'

/-- The text has no slash in it. -/
def Slashless (text : String) : Prop := '/' ∉ text.toList

instance : DecidablePred Slashless := fun text => inferInstanceAs (Decidable ('/' ∉ text.toList))

theorem Continues.cons {c : Char} {cs : List Char} (slash : c ≠ '/') (h : Continues cs) :
    Continues (c :: cs) := by
  refine ⟨?_, fun same => slash (Option.some.inj same)⟩
  have quiet := h.quiet
  unfold behindDoc? at quiet ⊢
  cases indented : isIndentation c with
  | true => rwa [List.dropWhile_cons_of_pos indented]
  | false =>
    rw [List.dropWhile_cons_of_neg (by simp [indented])]
    split
    · next same =>
      cases same
      exact absurd rfl slash
    · rfl

/-- A character that is neither a slash nor part of an indentation. -/
theorem Continues.of_head {c : Char} (cs : List Char) (slash : c ≠ '/')
    (indented : isIndentation c = false) : Continues (c :: cs) := by
  refine ⟨?_, fun same => slash (Option.some.inj same)⟩
  unfold behindDoc?
  rw [List.dropWhile_cons_of_neg (by simp [indented])]
  split
  · next same =>
    cases same
    exact absurd rfl slash
  · rfl

theorem Continues.append {cs : List Char} (us : List Char) (slashless : '/' ∉ us) (h : Continues cs) :
    Continues (us ++ cs) := by
  induction us with
  | nil => exact h
  | cons u us ih =>
    obtain ⟨here, later⟩ := not_or.1 (mt List.mem_cons.2 slashless)
    exact .cons (fun same => here same.symm) (ih later)

/-! ## Comments on one line -/

/-- No character of the comment ends a line. -/
def IsOneLine (note : String) : Prop := ∀ c ∈ note.toList, isLineEnd c = false

instance : DecidablePred IsOneLine := fun note => List.decidableBAll _ note.toList

/-- A comment that does not stand on one line has a first character that ends a line. -/
theorem exists_of_not_isOneLine {note : String} (broken : ¬IsOneLine note) :
    ∃ before c behind, note.toList = before ++ c :: behind ∧ isLineEnd c = true ∧
      ∀ d ∈ before, isLineEnd d = false := by
  have some : (note.toList.dropWhile fun c => !isLineEnd c) ≠ [] := by
    rw [Ne, List.dropWhile_eq_nil_iff]
    exact fun all => broken fun c mem => by simpa using all c mem
  obtain ⟨c, behind, left⟩ := List.exists_cons_of_ne_nil some
  refine ⟨note.toList.takeWhile fun c => !isLineEnd c, c, behind, ?_, ?_, fun d mem => ?_⟩
  · rw [← left, List.takeWhile_append_dropWhile]
  · have first := List.head?_dropWhile_not (fun c => !isLineEnd c) note.toList
    rw [left] at first
    simpa using first
  · simpa using List.all_eq_true.1 List.all_takeWhile d mem

/-- Of `u`, from the start of a line or not, something else is left than `v`, whatever follows: they agree
up to a newline of `v`, where what is left has another character. -/
def Leaks (follows : List Char → Prop) (b : Bool) (u v : String) : Prop :=
  ∃ kept behind, v.toList = kept ++ '\n' :: behind ∧ ∀ rest, follows rest →
    ∃ c out, c ≠ '\n' ∧ withoutComments b (u.toList ++ rest) = kept ++ c :: out

/-- What leaks early leaks, whatever is written behind it. -/
theorem Leaks.append {follows follows' : List Char → Prop} {b : Bool} {u v u' v' : String}
    (h : Leaks follows b u v) (next : ∀ rest, follows' rest → follows (u'.toList ++ rest)) :
    Leaks follows' b (u ++ u') (v ++ v') := by
  obtain ⟨kept, behind, bare, leaks⟩ := h
  refine ⟨kept, behind ++ v'.toList, ?_, fun rest here => ?_⟩
  · rw [String.toList_append, bare, List.append_assoc, List.cons_append]
  · rw [String.toList_append, List.append_assoc]
    exact leaks _ (next rest here)

/-- What leaks late leaks, if what is written before it is read as it should be. -/
theorem Leaks.behind {follows follows' : List Char → Prop} {b b' : Bool} {u v u' v' : String}
    (reads : ∀ rest, follows' rest →
      withoutComments b (u.toList ++ (u'.toList ++ rest)) =
        v.toList ++ withoutComments b' (u'.toList ++ rest))
    (h : Leaks follows b' u' v') (next : ∀ rest, follows' rest → follows rest) :
    Leaks follows' b (u ++ u') (v ++ v') := by
  obtain ⟨kept, behind, bare, leaks⟩ := h
  refine ⟨v.toList ++ kept, behind, ?_, fun rest here => ?_⟩
  · rw [String.toList_append, bare, List.append_assoc]
  · obtain ⟨c, out, other, left⟩ := leaks rest (next rest here)
    refine ⟨c, out, other, ?_⟩
    rw [String.toList_append, List.append_assoc, reads rest here, left, List.append_assoc]

/-- What is kept when texts are put together is kept by lists of texts put together alike. -/
theorem holds_intercalate {α : Type} {holds : List String → String → String → Prop}
    (empty : holds [] "" "")
    (append : ∀ {notes notes' a b a' b'}, holds notes a b → holds notes' a' b' →
      holds (notes ++ notes') (a ++ a') (b ++ b'))
    {separator : String} (between : holds [] separator separator) {xs : List α}
    {notes : α → List String} {text bare : α → String}
    (all : ∀ x ∈ xs, holds (notes x) (text x) (bare x)) :
    holds (xs.flatMap notes) (separator.intercalate (xs.map text))
      (separator.intercalate (xs.map bare)) := by
  induction xs with
  | nil => exact empty
  | cons x xs ih =>
    obtain ⟨first, rest⟩ := List.forall_mem_cons.1 all
    cases xs with
    | nil =>
      rw [List.map_singleton, List.map_singleton, String.intercalate_singleton,
        String.intercalate_singleton, List.flatMap_cons, List.flatMap_nil, List.append_nil]
      exact first
    | cons y ys =>
      have step := append (append first between) (ih rest)
      rw [List.append_nil] at step
      rw [List.map_cons, List.map_cons, List.map_cons, List.map_cons, String.intercalate_cons_cons,
        String.intercalate_cons_cons, List.flatMap_cons]
      exact step

/-! ## Texts within a line -/

/-- Taking the comments out of `u` gives `v`, whatever follows, if the comments behind its lines are on one
line each; else something leaks. -/
structure Strips (notes : List String) (u v : String) : Prop where
  reads : (∀ n ∈ notes, IsOneLine n) → ∀ b rest, Continues rest →
    withoutComments b (u.toList ++ rest) = v.toList ++ withoutComments false rest
  leaks : ¬(∀ n ∈ notes, IsOneLine n) → ∀ b, Leaks Continues b u v
  continues : ∀ rest, Continues rest → Continues (u.toList ++ rest)

namespace Strips

variable {notes notes' : List String} {u v u' v' : String}

theorem append (h : Strips notes u v) (h' : Strips notes' u' v') :
    Strips (notes ++ notes') (u ++ u') (v ++ v') where
  reads all b rest follows := by
    obtain ⟨first, second⟩ := List.forall_mem_append.1 all
    rw [String.toList_append, String.toList_append, List.append_assoc, List.append_assoc,
      h.reads first b _ (h'.continues rest follows), h'.reads second false rest follows]
  leaks broken b := by
    by_cases first : ∀ n ∈ notes, IsOneLine n
    · have second : ¬∀ n ∈ notes', IsOneLine n := fun second =>
        broken (List.forall_mem_append.2 ⟨first, second⟩)
      exact .behind (fun rest follows => h.reads first b _ (h'.continues rest follows))
        (h'.leaks second false) fun _ => id
    · exact (h.leaks first b).append h'.continues
  continues rest follows := by
    rw [String.toList_append, List.append_assoc]
    exact h.continues _ (h'.continues rest follows)

theorem reads_chars {cs : List Char} (slashless : '/' ∉ cs) (b : Bool) {rest : List Char}
    (follows : Continues rest) :
    withoutComments b (cs ++ rest) = cs ++ withoutComments false rest := by
  induction cs generalizing b with
  | nil => exact withoutComments_of_quiet follows.quiet
  | cons c cs ih =>
    obtain ⟨here, later⟩ := not_or.1 (mt List.mem_cons.2 slashless)
    have behind : Continues (cs ++ rest) := follows.append cs later
    have quiet := (behind.cons fun same => here same.symm).quiet
    have plain : behindComment? (c :: (cs ++ rest)) = none := by
      unfold behindComment?
      split
      · next same => exact absurd (by rw [(List.cons.inj same).2]; rfl) behind.head
      · next same => exact absurd (by rw [(List.cons.inj same).2]; rfl) behind.head
      · rfl
    have none : behind? b (c :: (cs ++ rest)) = none := by
      rw [behind?_of_quiet quiet, plain]
      rfl
    rw [List.cons_append, withoutComments_cons none, ih later]
    rfl

/-- A text without a slash stays as it is. -/
theorem code (slashless : Slashless u) : Strips [] u u where
  reads _ b _ follows := reads_chars slashless b follows
  leaks broken := absurd (List.forall_mem_nil _) broken
  continues _ follows := follows.append _ slashless

theorem empty : Strips [] "" "" := code (by decide)

/-- Something without a slash before a text. -/
theorem after {a : String} (h : Strips notes u v) (slashless : Slashless a) :
    Strips notes (a ++ u) (a ++ v) :=
  (code slashless).append h

/-- Something without a slash behind a text. -/
theorem before {a : String} (h : Strips notes u v) (slashless : Slashless a) :
    Strips notes (u ++ a) (v ++ a) := by
  have both := h.append (code slashless)
  rwa [List.append_nil] at both

/-- A text between two others that have no slash. -/
theorem between {a b : String} (h : Strips notes u v) (first : Slashless a) (last : Slashless b) :
    Strips notes (a ++ u ++ b) (a ++ v ++ b) :=
  (h.after first).before last

/-- Texts with a separator between them. -/
theorem intercalate {α : Type} {separator : String} (slashless : Slashless separator) {xs : List α}
    {notes : α → List String} {text bare : α → String}
    (h : ∀ x ∈ xs, Strips (notes x) (text x) (bare x)) :
    Strips (xs.flatMap notes) (separator.intercalate (xs.map text))
      (separator.intercalate (xs.map bare)) :=
  holds_intercalate empty append (code slashless) h

end Strips

/-! ## Comments -/

open TsWord (IsBlank escapeEnd_append_ne)

theorem behindBlock?_escapeEnd {cs rest : List Char} (h : rest.head? ≠ some '/') :
    behindBlock? (escapeEnd cs ++ rest) = behindBlock? rest := by
  fun_induction escapeEnd cs with
  | case1 cs ih => exact ih
  | case2 c cs other ih =>
    rw [List.cons_append, behindBlock?, ih]
    exact escapeEnd_append_ne other h
  | case3 => rfl

/-- The comment behind a parameter goes with the space before it. -/
theorem Strips.paramNote (note : String) : Strips [] (paramNote note) "" := by
  unfold Typings.paramNote
  split
  · exact .empty
  have chars : ∀ rest, (" /* " ++ String.ofList (escapeEnd note.toList) ++ " */").toList ++ rest =
      ' ' :: '/' :: '*' :: ' ' :: (escapeEnd note.toList ++ ' ' :: '*' :: '/' :: rest) := by
    intro rest
    simp
  have quiet : ∀ cs, behindDoc? (' ' :: '/' :: '*' :: ' ' :: cs) = none := fun _ => rfl
  refine ⟨fun _ b rest _ => ?_, fun broken => absurd (List.forall_mem_nil _) broken, fun rest _ => ?_⟩
  · have block : behindComment? (' ' :: '/' :: '*' :: ' ' ::
        (escapeEnd note.toList ++ ' ' :: '*' :: '/' :: rest)) = some rest :=
      behindBlock?_escapeEnd (by simp)
    rw [chars, withoutComments_of_comment (quiet _) block]
    rfl
  · rw [chars]
    exact ⟨quiet _, nofun⟩

/-! ## Whole lines -/

/-- Behind a character that ends a line a line starts. -/
theorem withoutComments_lineEnd {c : Char} (ends : isLineEnd c = true) (b : Bool) (rest : List Char) :
    withoutComments b (c :: rest) = c :: withoutComments true rest := by
  have cases : ((c = '\n' ∨ c = '\r') ∨ c = '\u2028') ∨ c = '\u2029' := by
    simpa [isLineEnd] using ends
  have none : behind? b (c :: rest) = none := by
    rcases cases with ((rfl | rfl) | rfl) | rfl <;> cases b <;> rfl
  rw [withoutComments_cons none, ends]

/-- Taking the comments out of the lines `u` gives the lines `v`, whatever lines follow, if the comments
behind these lines are on one line each; else something leaks. -/
structure Clears (notes : List String) (u v : String) : Prop where
  reads : (∀ n ∈ notes, IsOneLine n) → ∀ rest,
    withoutComments true (u.toList ++ rest) = v.toList ++ withoutComments true rest
  leaks : ¬(∀ n ∈ notes, IsOneLine n) → Leaks (fun _ => True) true u v

namespace Clears

variable {notes notes' : List String} {u v u' v' : String}

/-- Lines with no comments behind them. -/
theorem of_reads
    (reads : ∀ rest, withoutComments true (u.toList ++ rest) = v.toList ++ withoutComments true rest) :
    Clears [] u v :=
  ⟨fun _ => reads, fun broken => absurd (List.forall_mem_nil _) broken⟩

theorem empty : Clears [] "" "" := of_reads fun _ => rfl

theorem append (h : Clears notes u v) (h' : Clears notes' u' v') :
    Clears (notes ++ notes') (u ++ u') (v ++ v') where
  reads all rest := by
    obtain ⟨first, second⟩ := List.forall_mem_append.1 all
    rw [String.toList_append, String.toList_append, List.append_assoc, List.append_assoc,
      h.reads first, h'.reads second]
  leaks broken := by
    by_cases first : ∀ n ∈ notes, IsOneLine n
    · have second : ¬∀ n ∈ notes', IsOneLine n := fun second =>
        broken (List.forall_mem_append.2 ⟨first, second⟩)
      exact .behind (fun _ _ => h.reads first _) (h'.leaks second) fun _ => id
    · exact (h.leaks first).append fun _ _ => trivial

/-- Texts of whole lines with an empty line between them. -/
theorem lines {α : Type} {xs : List α} {notes : α → List String} {text bare : α → String}
    (h : ∀ x ∈ xs, Clears (notes x) (text x) (bare x)) :
    Clears (xs.flatMap notes) ("\n".intercalate (xs.map text)) ("\n".intercalate (xs.map bare)) :=
  have newline : Clears [] "\n" "\n" := of_reads fun _ => withoutComments_lineEnd rfl _ _
  holds_intercalate empty append newline h

/-- In a text that is whole lines, nothing follows. -/
theorem strip_iff (h : Clears notes u v) : stripComments u = v ↔ ∀ n ∈ notes, IsOneLine n := by
  constructor
  · intro same
    by_contra broken
    obtain ⟨kept, behind, bare, leaks⟩ := h.leaks broken
    obtain ⟨c, out, other, left⟩ := leaks [] trivial
    rw [List.append_nil] at left
    have chars := congrArg String.toList same
    rw [stripComments, String.toList_ofList, left, bare, List.append_cancel_left_eq] at chars
    exact other (List.cons.inj chars).1
  · intro all
    have whole := h.reads all []
    rw [List.append_nil, withoutComments_nil, List.append_nil] at whole
    rw [stripComments, whole, String.ofList_toList]

end Clears

/-- The reader takes up again behind what it takes for a comment behind something: at the first character
that ends a line. -/
theorem behindComment?_note {before : List Char} (inside : ∀ d ∈ before, isLineEnd d = false) {c : Char}
    (ends : isLineEnd c = true) (rest : List Char) :
    behindComment? (' ' :: '/' :: '/' :: ' ' :: (before ++ c :: rest)) = some (c :: rest) := by
  have kept : ∀ d ∈ ' ' :: before, (!isLineEnd d) = true := by
    intro d mem
    rcases List.mem_cons.1 mem with rfl | mem
    · rfl
    · rw [inside d mem]
      rfl
  rw [behindComment?, ← List.cons_append, List.dropWhile_append_of_pos kept,
    List.dropWhile_cons_of_neg (by simp [ends])]

/-- The end of a line: a comment there that stands on one line goes with the space before it, and the
newline stays. Of any other, what is behind its first line stays, too. -/
theorem Strips.line {notes : List String} {u v note : String} (h : Strips notes u v)
    (plain : '\n' ∉ note.toList) :
    Clears (notes ++ [note]) (u ++ lineEndText note) (v ++ "\n") := by
  have newline : ("\n" : String).toList = ['\n'] := rfl
  have quiet : ∀ cs, behindDoc? (' ' :: '/' :: '/' :: ' ' :: cs) = none := fun _ => rfl
  have opens : ∀ cs, Continues (' ' :: '/' :: '/' :: ' ' :: cs) := fun cs => ⟨quiet cs, nofun⟩
  have chars : ∀ rest, (" // " ++ note ++ "\n").toList ++ rest =
      ' ' :: '/' :: '/' :: ' ' :: (note.toList ++ '\n' :: rest) := fun rest => by simp
  have follows : ∀ rest, Continues ((lineEndText note).toList ++ rest) := by
    intro rest
    unfold lineEndText
    split
    · exact .of_head rest (by decide) rfl
    · rw [chars]
      exact opens _
  constructor
  · intro all rest
    obtain ⟨first, second⟩ := List.forall_mem_append.1 all
    have here := List.forall_mem_singleton.1 second
    rw [String.toList_append, String.toList_append, List.append_assoc, List.append_assoc, newline,
      List.singleton_append, h.reads first _ _ (follows rest)]
    unfold lineEndText
    split
    · rw [newline, List.singleton_append, withoutComments_lineEnd rfl]
    · rw [chars, withoutComments_of_comment (quiet _) (behindComment?_note here rfl rest),
        withoutComments_lineEnd rfl]
  · intro broken
    by_cases first : ∀ n ∈ notes, IsOneLine n
    · have here : ¬IsOneLine note := fun here =>
        broken (List.forall_mem_append.2 ⟨first, List.forall_mem_singleton.2 here⟩)
      obtain ⟨before, c, behind, split, ends, inside⟩ := exists_of_not_isOneLine here
      have some : note ≠ "" := by
        rintro rfl
        exact here (List.forall_mem_nil _)
      have other : c ≠ '\n' := by
        rintro rfl
        exact plain (split ▸ List.mem_append_right _ List.mem_cons_self)
      refine ⟨v.toList, [], by rw [String.toList_append, newline], fun rest _ => ?_⟩
      refine ⟨c, withoutComments true (behind ++ '\n' :: rest), other, ?_⟩
      rw [String.toList_append, List.append_assoc, h.reads first _ _ (follows rest), lineEndText,
        if_neg some, chars, split, List.append_assoc, List.cons_append,
        withoutComments_of_comment (quiet _) (behindComment?_note inside ends _),
        withoutComments_lineEnd ends]
    · exact (h.leaks first true).append fun rest _ => follows rest

theorem behindBlock?_unstarred {cs : List Char} (unstarred : '*' ∉ cs) (rest : List Char) :
    behindBlock? (cs ++ rest) = behindBlock? rest := by
  induction cs with
  | nil => rfl
  | cons c cs ih =>
    obtain ⟨here, later⟩ := not_or.1 (mt List.mem_cons.2 unstarred)
    rw [List.cons_append, behindBlock?, ih later]
    exact fun _ same => absurd same.symm here

theorem behindBlock?_docLine (line : String) (rest : List Char) :
    behindBlock? ((docLine line).toList ++ rest) = behindBlock? rest := by
  unfold docLine
  split
  · rfl
  · have chars : (" * " ++ String.ofList (escapeEnd line.toList) ++ "\n").toList ++ rest =
        ' ' :: '*' :: ' ' :: (escapeEnd line.toList ++ '\n' :: rest) := by simp
    rw [chars]
    exact behindBlock?_escapeEnd (by simp)

theorem behindBlock?_docLines {margin : String} (unstarred : '*' ∉ margin.toList)
    (lines : List String) (rest : List Char) :
    behindBlock? ((String.join (lines.map fun line => margin ++ docLine line)).toList ++ rest) =
      behindBlock? rest := by
  induction lines with
  | nil => rfl
  | cons line lines ih =>
    rw [List.map_cons, String.join_cons, String.toList_append, String.toList_append,
      List.append_assoc, List.append_assoc, behindBlock?_unstarred unstarred, behindBlock?_docLine, ih]

/-- A documentation block goes with all of its lines. -/
theorem Clears.docBlock {margin : String} (blank : IsBlank margin) (lines : List String) :
    Clears [] (docBlock margin lines) "" := by
  refine .of_reads fun rest => ?_
  unfold Typings.docBlock
  split
  · rfl
  have indented : ∀ c ∈ margin.toList, isIndentation c = true := fun c mem => by
    rcases blank c mem with rfl | rfl <;> rfl
  have unstarred : '*' ∉ margin.toList := fun mem => by
    rcases blank _ mem with same | same <;> cases same
  have opening : ∀ cs, behindBlock? ("*\n".toList ++ cs) = behindBlock? cs := fun _ => rfl
  have block : behindBlock? ("*\n".toList ++ ((String.join (lines.map fun line => margin ++
      docLine line)).toList ++ (margin.toList ++ (" */\n".toList ++ rest)))) =
        some ('\n' :: rest) := by
    rw [opening, behindBlock?_docLines unstarred, behindBlock?_unstarred unstarred]
    rfl
  have doc : behindDoc? ((margin ++ "/**\n" ++ String.join (lines.map fun line => margin ++
      docLine line) ++ margin ++ " */\n").toList ++ rest) = some rest := by
    simp only [String.toList_append, List.append_assoc]
    rw [behindDoc?, List.dropWhile_append_of_pos indented]
    show (match behindBlock? ("*\n".toList ++ _) with
      | some (c :: cs) => if isLineEnd c then some cs else none
      | _ => none) = some rest
    rw [block]
    rfl
  rw [withoutComments_of_doc doc]
  rfl

/-- Comments of all three kinds. -/
example : stripComments "/**\n * A // *\\/\n */\nx: T /* y */ // z */\n" = "x: T\n" := by
  decide +kernel

end Typings
