import Typings.Proofs.Comments.Surrounded
import Typings.Proofs.LineEnds.Items

/-!
# What comments say

A group of comments says the same if a carriage return is put before each newline: blanks at the ends of
lines are trimmed (`said_line`, `said_block`). What it says does not depend on how it is written: a single
comment that holds the text of the group has the same lines (`CommentGroup.lines_plain`).
-/

namespace Typings

open Text (crlf crlf_newline crlf_cons splitOn splitLines trimRight isBlank joinWith dropRightWhile)

/-! ## Trimming -/

namespace Text

variable {drop : Char → Bool} {a b : List Char}

theorem dropRightWhile_concat {c : Char} (drops : drop c = true) (cs : List Char) :
    dropRightWhile drop (cs ++ [c]) = dropRightWhile drop cs := by
  induction cs with
  | nil => simp [dropRightWhile, drops]
  | cons d cs ih => rw [List.cons_append, dropRightWhile, dropRightWhile, ih]

theorem dropRightWhile_cons_congr (c : Char) (same : dropRightWhile drop a = dropRightWhile drop b) :
    dropRightWhile drop (c :: a) = dropRightWhile drop (c :: b) := by
  rw [dropRightWhile, dropRightWhile, same]

/-- A text that is trimmed on the right does not end in what is dropped. -/
theorem dropRightWhile_eq_self_iff :
    dropRightWhile drop a = a ↔ ∀ c ∈ a.getLast?, drop c = false := by
  induction a with
  | nil => simp [dropRightWhile]
  | cons c cs ih =>
    cases cs with
    | nil => simp [dropRightWhile]
    | cons d ds =>
      rw [List.getLast?_cons_cons, ← ih, dropRightWhile]
      split
      · next none =>
        rw [none]
        split <;> simp
      · simp

/-- What is trimmed on the right stays so, whatever stands before it. -/
theorem dropRightWhile_append (trimmed : dropRightWhile drop b = b) (some : b ≠ []) (a : List Char) :
    dropRightWhile drop (a ++ b) = a ++ b := by
  obtain ⟨d, final⟩ := Option.ne_none_iff_exists'.1 (mt List.getLast?_eq_none_iff.1 some)
  refine dropRightWhile_eq_self_iff.2 fun c mem => ?_
  rw [List.getLast?_append, final] at mem
  exact dropRightWhile_eq_self_iff.1 trimmed c (final.trans mem)

theorem dropRightWhile_idem (cs : List Char) :
    dropRightWhile drop (dropRightWhile drop cs) = dropRightWhile drop cs := by
  induction cs with
  | nil => rfl
  | cons c cs ih =>
    cases left : dropRightWhile drop cs with
    | nil =>
      by_cases drops : drop c = true
      · simp [dropRightWhile, left, drops]
      · simp [dropRightWhile, left, drops]
    | cons d ds =>
      rw [left] at ih
      rw [dropRightWhile, left]
      exact dropRightWhile_append ih (List.cons_ne_nil _ _) [c]

/-- Carriage returns at the ends of lines are trimmed. -/
theorem map_trimRight_splitLines_crlf (cs : List Char) :
    (splitLines (crlf cs)).map trimRight = (splitLines cs).map trimRight := by
  unfold splitLines
  induction cs with
  | nil => rfl
  | cons c cs ih =>
    by_cases newline : c = '\n'
    · subst newline
      have blank : trimRight ['\r'] = trimRight [] := rfl
      simp only [crlf_newline, splitOn, if_neg (show '\r' ≠ '\n' by decide), if_pos, List.map_cons, ih,
        blank]
    · rw [crlf_cons newline, splitOn, splitOn, if_neg newline, if_neg newline]
      cases first : splitOn '\n' (crlf cs) with
      | nil =>
        rw [first] at ih
        rw [List.map_eq_nil_iff.1 ih.symm]
      | cons piece pieces =>
        rw [first] at ih
        cases second : splitOn '\n' cs with
        | nil =>
          rw [second] at ih
          cases ih
        | cons piece' pieces' =>
          rw [second] at ih
          obtain ⟨here, later⟩ := List.cons_eq_cons.1 ih
          exact List.cons_eq_cons.2 ⟨dropRightWhile_cons_congr c here, later⟩

end Text

/-! ## Comments -/

/-- What a comment says, line by line. -/
def said (text : String) : List (List Char) := (CommentGroup.stripMarkers text.toList).map trimRight

theorem CommentGroup.pieces_eq (group : CommentGroup) :
    group.pieces = trimEmpty (group.comments.flatMap said) := by
  rw [pieces, List.map_flatMap]
  rfl

/-- A carriage return at the end of a line comment says nothing. -/
theorem said_line (body : List Char) : said (String.ofList ('/' :: '/' :: (body ++ ['\r']))) =
    said (String.ofList ('/' :: '/' :: body)) := by
  have trims : ∀ cs, [cs ++ ['\r']].map trimRight = [cs].map trimRight := fun cs =>
    congrArg (fun line => [line]) (Text.dropRightWhile_concat (by decide) cs)
  unfold said
  rw [String.toList_ofList, String.toList_ofList]
  cases body with
  | nil => exact trims []
  | cons c cs =>
    by_cases space : c = ' '
    · subst space
      exact trims cs
    · rw [List.cons_append, CommentGroup.stripMarkers, CommentGroup.stripMarkers]
      · exact trims (c :: cs)
      · exact fun cs same => space (List.cons_eq_cons.1 same).1
      · exact fun cs same => space (List.cons_eq_cons.1 same).1

theorem CommentGroup.dropEnding_append (ending cs : List Char) :
    dropEnding ending (cs ++ ending) = cs := by
  simp [dropEnding]

/-- Nor do carriage returns inside a block comment. -/
theorem said_block (inside : List Char) :
    said (String.ofList ('/' :: '*' :: (crlf inside ++ ['*', '/']))) =
      said (String.ofList ('/' :: '*' :: (inside ++ ['*', '/']))) := by
  have lines : ∀ cs, CommentGroup.stripMarkers ('/' :: '*' :: (cs ++ ['*', '/'])) = splitLines cs :=
    fun cs => congrArg splitLines (CommentGroup.dropEnding_append _ cs)
  unfold said
  rw [String.toList_ofList, String.toList_ofList, lines, lines, Text.map_trimRight_splitLines_crlf]

/-! ## Groups -/

namespace CommentGroup

/-- The group as a single comment. -/
def plain (group : CommentGroup) : CommentGroup :=
  ⟨[String.ofList ('/' :: '/' :: ' ' :: group.body)]⟩

/-- Lines are trimmed, and there are none, or the last is not empty. -/
structure Trimmed (lines : List (List Char)) : Prop where
  right : ∀ line ∈ lines, trimRight line = line
  last : ∀ line ∈ lines.getLast?, line ≠ []

theorem trimmed_pieces (group : CommentGroup) : Trimmed group.pieces where
  right line mem := by
    obtain ⟨text, -, rfl⟩ := List.mem_map.1 (mem_of_mem_trimEmpty mem)
    exact Text.dropRightWhile_idem text
  last := (hasEnds_trimEmpty _).last

/-- Trimmed lines are a trimmed text. -/
theorem Trimmed.joinWith {lines : List (List Char)} (h : Trimmed lines) (some : lines ≠ []) :
    trimRight (joinWith ['\n'] lines) = joinWith ['\n'] lines ∧ joinWith ['\n'] lines ≠ [] := by
  fun_induction Text.joinWith ['\n'] lines with
  | case1 => exact absurd rfl some
  | case2 piece => exact ⟨h.right piece List.mem_cons_self, h.last piece rfl⟩
  | case3 piece pieces more ih =>
    have behind : pieces ≠ [] := more
    have last : ∀ line ∈ pieces.getLast?, line ≠ [] := by
      intro line mem
      refine h.last line ?_
      rw [List.getLast?_cons, Option.mem_def.1 mem]
      rfl
    obtain ⟨trimmed, ne⟩ := ih ⟨fun line mem => h.right line (List.mem_cons_of_mem _ mem), last⟩ behind
    exact ⟨Text.dropRightWhile_append trimmed ne _, fun none => ne (List.append_eq_nil_iff.1 none).2⟩

/-- The single comment says what the group says. -/
theorem lines_plain (group : CommentGroup) : group.plain.lines = group.lines := by
  have pieces_plain : group.plain.pieces = trimEmpty [trimRight group.body] := by
    rw [pieces_eq, plain, List.flatMap_singleton, said, String.toList_ofList]
    rfl
  unfold lines
  by_cases none : group.pieces = []
  · have empty : group.body = [] := by
      rw [body, none]
      rfl
    have nothing : group.plain.pieces = [] := by
      rw [pieces_plain, empty]
      rfl
    simp [nothing, none]
  · obtain ⟨trimmed, ne⟩ := group.trimmed_pieces.joinWith none
    have same : group.plain.pieces = [group.body] := by
      rw [pieces_plain, body, trimmed]
      simp [trimEmpty, ne]
    have body_plain : group.plain.body = group.body := by
      rw [body, same]
      rfl
    rw [same, body_plain]
    simp [none]

/-- Groups whose comments say the same are the same as single comments. -/
theorem plain_congr {group other : CommentGroup}
    (same : group.comments.flatMap said = other.comments.flatMap said) : group.plain = other.plain := by
  rw [plain, plain, body, body, pieces_eq, pieces_eq, same]

end CommentGroup

end Typings
