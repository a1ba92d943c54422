import Mathlib.Data.List.TakeWhile
import Typings.CommentGroup

/-!
# Lines with empty lines around them

Every list of lines is what is left of it without the empty lines at both ends, with so many empty lines
before it and so many behind it (`exists_surrounded`). What is left has no empty line at its ends
(`hasEnds_trimEmpty`), and any lines of this kind are what is left when empty lines are put around them
(`trimEmpty_surrounded`). So what is left of two lists put together is known from what is left of each
(`trimEmpty_append`).
-/

namespace Typings.CommentGroup

variable {lines : List (List Char)}

/-- Neither the first line nor the last one is empty. -/
structure HasEnds (lines : List (List Char)) : Prop where
  first : ∀ line ∈ lines.head?, line ≠ []
  last : ∀ line ∈ lines.getLast?, line ≠ []

/-- Lines that begin and end with text do so from behind, too. -/
theorem HasEnds.reverse (h : HasEnds lines) : HasEnds lines.reverse where
  first line mem := h.last line (List.head?_reverse ▸ mem)
  last line mem := h.first line (List.getLast?_reverse ▸ mem)

/-- Two blocks of lines with any lines between them begin and end with text. -/
theorem HasEnds.append {others : List (List Char)} (h : HasEnds lines) (some : lines ≠ [])
    (h' : HasEnds others) (some' : others ≠ []) (between : List (List Char)) :
    HasEnds (lines ++ between ++ others) where
  first line mem := by
    obtain ⟨start, more, rfl⟩ := List.exists_cons_of_ne_nil some
    exact h.first line mem
  last line mem := by
    cases stop : others.getLast? with
    | none => exact absurd (List.getLast?_eq_none_iff.1 stop) some'
    | some final =>
      rw [List.getLast?_append, stop] at mem
      exact h'.last line (stop.trans mem)

/-- The lines, with so many empty lines before them and so many behind them. -/
def surrounded (before : Nat) (lines : List (List Char)) (behind : Nat) : List (List Char) :=
  List.replicate before [] ++ lines ++ List.replicate behind []

/-- From behind, the margins change places. -/
theorem reverse_surrounded (before behind : Nat) (lines : List (List Char)) :
    (surrounded before lines behind).reverse = surrounded behind lines.reverse before := by
  simp [surrounded]

theorem isEmpty_of_mem_replicate {n : Nat} {line : List Char} (mem : line ∈ List.replicate n []) :
    line.isEmpty = true := by
  rw [List.eq_of_mem_replicate mem]
  rfl

/-! ## The empty lines at one end -/

/-- The number of empty lines before the first that is not empty. -/
def emptyBefore (lines : List (List Char)) : Nat := (lines.takeWhile List.isEmpty).length

/-- The number of empty lines behind the last that is not empty. -/
def emptyBehind (lines : List (List Char)) : Nat := emptyBefore lines.reverse

theorem takeWhile_isEmpty (lines : List (List Char)) :
    lines.takeWhile List.isEmpty = List.replicate (emptyBefore lines) [] :=
  List.eq_replicate_iff.2 ⟨rfl, fun _ mem => List.isEmpty_iff.1 (List.mem_takeWhile_imp mem)⟩

/-- Before a line with text there is no empty line. -/
theorem takeWhile_isEmpty_of_first {line : List Char} (some : line ≠ []) (more : List (List Char)) :
    (line :: more).takeWhile List.isEmpty = [] ∧ (line :: more).dropWhile List.isEmpty = line :: more := by
  have other : ¬line.isEmpty = true := mt List.isEmpty_iff.1 some
  exact ⟨List.takeWhile_cons_of_neg other, List.dropWhile_cons_of_neg other⟩

/-- The empty lines before lines with ends are those of the margin. -/
theorem emptyBefore_surrounded (h : HasEnds lines) (some : lines ≠ []) (before behind : Nat) :
    emptyBefore (surrounded before lines behind) = before := by
  obtain ⟨line, more, rfl⟩ := List.exists_cons_of_ne_nil some
  have here := (takeWhile_isEmpty_of_first (h.first line rfl) (more ++ List.replicate behind [])).1
  rw [emptyBefore, surrounded, List.append_assoc,
    List.takeWhile_append_of_pos fun _ => isEmpty_of_mem_replicate, List.cons_append, here,
    List.append_nil, List.length_replicate]

/-- The empty lines behind lines with ends are those of the margin. -/
theorem emptyBehind_surrounded (h : HasEnds lines) (some : lines ≠ []) (before behind : Nat) :
    emptyBehind (surrounded before lines behind) = behind := by
  rw [emptyBehind, reverse_surrounded]
  exact emptyBefore_surrounded h.reverse (mt List.reverse_eq_nil_iff.1 some) behind before

/-- Without the empty lines before them, lines that are not all empty are left as they were. -/
theorem dropWhile_surrounded (h : HasEnds lines) (some : lines ≠ []) (before behind : Nat) :
    (surrounded before lines behind).dropWhile List.isEmpty = surrounded 0 lines behind := by
  obtain ⟨line, more, rfl⟩ := List.exists_cons_of_ne_nil some
  rw [surrounded, surrounded, List.append_assoc,
    List.dropWhile_append_of_pos fun _ => isEmpty_of_mem_replicate]
  exact (takeWhile_isEmpty_of_first (h.first line rfl) _).2

/-! ## The empty lines at both ends -/

theorem mem_of_mem_trimEmpty {line : List Char} (mem : line ∈ trimEmpty lines) : line ∈ lines := by
  have trimmed := (List.dropWhile_sublist _).subset (List.mem_reverse.1 mem)
  exact (List.dropWhile_sublist _).subset (List.mem_reverse.1 trimmed)

/-- Of empty lines alone nothing is left. -/
theorem trimEmpty_replicate (n : Nat) : trimEmpty (List.replicate n []) = [] := by
  have none : (List.replicate n ([] : List Char)).dropWhile List.isEmpty = [] :=
    List.dropWhile_eq_nil_iff.2 fun _ => isEmpty_of_mem_replicate
  rw [trimEmpty, none]
  rfl

/-- Empty lines around others are left out again. -/
theorem trimEmpty_surrounded (h : HasEnds lines) (before behind : Nat) :
    trimEmpty (surrounded before lines behind) = lines := by
  by_cases none : lines = []
  · rw [none, surrounded, List.append_nil, List.replicate_append_replicate]
    exact trimEmpty_replicate _
  · rw [trimEmpty, dropWhile_surrounded h none, reverse_surrounded,
      dropWhile_surrounded h.reverse (mt List.reverse_eq_nil_iff.1 none), reverse_surrounded,
      List.reverse_reverse]
    simp [surrounded]

/-- Nothing is taken from lines with ends. -/
theorem trimEmpty_eq_self (h : HasEnds lines) : trimEmpty lines = lines := by
  have whole := trimEmpty_surrounded h 0 0
  rwa [surrounded, List.replicate_zero, List.nil_append, List.append_nil] at whole

/-- What is left begins and ends with text. -/
theorem hasEnds_trimEmpty (lines : List (List Char)) : HasEnds (trimEmpty lines) where
  first line mem := by
    have start : trimEmpty lines <+: lines.dropWhile List.isEmpty := by
      rw [← List.reverse_suffix, trimEmpty, List.reverse_reverse]
      exact List.dropWhile_suffix _
    obtain ⟨rest, whole⟩ := start
    have stops := List.head?_dropWhile_not List.isEmpty lines
    rw [← whole, List.head?_append, Option.mem_def.1 mem] at stops
    rintro rfl
    cases stops
  last line mem := by
    rw [trimEmpty, List.getLast?_reverse] at mem
    have stops := List.head?_dropWhile_not List.isEmpty (lines.dropWhile List.isEmpty).reverse
    rw [Option.mem_def.1 mem] at stops
    rintro rfl
    cases stops

/-- Nothing but empty lines is left out at the ends. -/
theorem exists_surrounded (lines : List (List Char)) :
    ∃ before behind, lines = surrounded before (trimEmpty lines) behind := by
  refine ⟨emptyBefore lines, emptyBehind (lines.dropWhile List.isEmpty), ?_⟩
  have back : lines.dropWhile List.isEmpty =
      trimEmpty lines ++ List.replicate (emptyBehind (lines.dropWhile List.isEmpty)) [] := by
    rw [← List.reverse_inj, List.reverse_append, List.reverse_replicate, trimEmpty, List.reverse_reverse,
      emptyBehind, ← takeWhile_isEmpty, List.takeWhile_append_dropWhile]
  rw [surrounded, List.append_assoc, ← back, ← takeWhile_isEmpty, List.takeWhile_append_dropWhile]

/-- Between what is left of two lists stand the empty lines behind the one and before the other, and they
are left out if there is nothing on one side of them. -/
theorem trimEmpty_append (lines others : List (List Char)) :
    trimEmpty (lines ++ others) =
      if trimEmpty lines = [] then trimEmpty others
      else if trimEmpty others = [] then trimEmpty lines
      else trimEmpty lines ++ List.replicate (emptyBehind lines + emptyBefore others) [] ++
        trimEmpty others := by
  have ends := hasEnds_trimEmpty lines
  have ends' := hasEnds_trimEmpty others
  obtain ⟨before, behind, whole⟩ := exists_surrounded lines
  obtain ⟨before', behind', whole'⟩ := exists_surrounded others
  generalize trimEmpty lines = rest at ends whole ⊢
  generalize trimEmpty others = rest' at ends' whole' ⊢
  subst whole whole'
  split
  · next none =>
    have joined : surrounded before rest behind ++ surrounded before' rest' behind' =
        surrounded (before + behind + before') rest' behind' := by
      simp [surrounded, none, ← List.replicate_append_replicate]
    rw [joined, trimEmpty_surrounded ends']
  next some =>
  split
  · next none' =>
    have joined : surrounded before rest behind ++ surrounded before' rest' behind' =
        surrounded before rest (behind + before' + behind') := by
      simp [surrounded, none', Nat.add_assoc]
    rw [joined, trimEmpty_surrounded ends]
  · next some' =>
    have joined : surrounded before rest behind ++ surrounded before' rest' behind' =
        surrounded before (rest ++ List.replicate (behind + before') [] ++ rest') behind' := by
      simp [surrounded, ← List.replicate_append_replicate]
    rw [joined, trimEmpty_surrounded (ends.append some ends' some' _), emptyBehind_surrounded ends some,
      emptyBefore_surrounded ends' some']

end Typings.CommentGroup
