/-!
# Lines of text

Cutting a text at its line ends, trimming the blanks on the right of a line, and joining pieces
with a separator, all over lists of characters. What is true of each piece and kept when two texts are
put together is true of what they are joined to.
-/

namespace Typings.Text

/-- The pieces between separators: one more than there are separators, so never none. -/
def splitOn (separator : Char) : List Char → List (List Char)
  | [] => [[]]
  | c :: cs =>
    if c = separator then [] :: splitOn separator cs
    else match splitOn separator cs with
      | [] => [[c]]
      | piece :: pieces => (c :: piece) :: pieces

/-- The pieces between newlines. -/
def splitLines (cs : List Char) : List (List Char) := splitOn '\n' cs

/-- A character that is trimmed at the right end of a line: the control characters that move the
carriage or part a text, and the spaces of every width. -/
def isBlank (c : Char) : Bool :=
  let n := c.toNat
  (0x09 ≤ n && n ≤ 0x0d) || (0x1c ≤ n && n ≤ 0x20) || n == 0x85 || n == 0xa0 || n == 0x1680
    || (0x2000 ≤ n && n ≤ 0x200a) || n == 0x2028 || n == 0x2029 || n == 0x202f || n == 0x205f
    || n == 0x3000

/-- A text without the characters at its right end that satisfy the test. -/
def dropRightWhile (drop : Char → Bool) : List Char → List Char
  | [] => []
  | c :: cs =>
    match dropRightWhile drop cs with
    | [] => if drop c then [] else [c]
    | rest => c :: rest

/-- A text without the blanks at its right end. -/
def trimRight (cs : List Char) : List Char := dropRightWhile isBlank cs

/-- The pieces one after another, with the separator between neighbours. -/
def joinWith (separator : List Char) : List (List Char) → List Char
  | [] => []
  | [piece] => piece
  | piece :: pieces => piece ++ separator ++ joinWith separator pieces

/-! ## The characters of the pieces -/

theorem mem_of_mem_splitOn {separator c : Char} {cs piece : List Char}
    (among : piece ∈ splitOn separator cs) (mem : c ∈ piece) : c ∈ cs := by
  induction cs generalizing piece with
  | nil =>
    rw [List.mem_singleton.1 among] at mem
    exact mem
  | cons d cs ih =>
    rw [splitOn] at among
    split at among
    · rcases List.mem_cons.1 among with rfl | behind
      · cases mem
      · exact List.mem_cons_of_mem _ (ih behind mem)
    · split at among
      · next none =>
        rw [List.mem_singleton.1 among] at mem
        exact List.mem_singleton.1 mem ▸ List.mem_cons_self
      · next first rest split =>
        rw [split] at ih
        rcases List.mem_cons.1 among with rfl | behind
        · rcases List.mem_cons.1 mem with rfl | inside
          · exact List.mem_cons_self
          · exact List.mem_cons_of_mem _ (ih List.mem_cons_self inside)
        · exact List.mem_cons_of_mem _ (ih (List.mem_cons_of_mem _ behind) mem)

theorem mem_of_mem_joinWith {separator : List Char} {c : Char} {pieces : List (List Char)}
    (apart : c ∉ separator) (mem : c ∈ joinWith separator pieces) : ∃ piece ∈ pieces, c ∈ piece := by
  fun_induction joinWith separator pieces with
  | case1 => cases mem
  | case2 piece => exact ⟨piece, List.mem_cons_self, mem⟩
  | case3 piece pieces more ih =>
    rcases List.mem_append.1 mem with here | behind
    · rcases List.mem_append.1 here with first | between
      · exact ⟨piece, List.mem_cons_self, first⟩
      · exact absurd between apart
    · obtain ⟨next, among, inside⟩ := ih behind
      exact ⟨next, List.mem_cons_of_mem _ among, inside⟩

theorem mem_of_mem_dropRightWhile {drop : Char → Bool} {c : Char} {cs : List Char}
    (mem : c ∈ dropRightWhile drop cs) : c ∈ cs := by
  induction cs with
  | nil => exact mem
  | cons d ds ih =>
    rw [dropRightWhile] at mem
    split at mem
    · split at mem
      · cases mem
      · exact List.mem_singleton.1 mem ▸ List.mem_cons_self
    · rcases List.mem_cons.1 mem with rfl | behind
      · exact List.mem_cons_self
      · exact List.mem_cons_of_mem _ (ih behind)

/-! ## What is kept when texts are put together -/

theorem intercalate_of {holds : String → Prop} (empty : holds "")
    (append : ∀ {a b}, holds a → holds b → holds (a ++ b)) {separator : String} {texts : List String}
    (between : holds separator) (all : ∀ text ∈ texts, holds text) :
    holds (separator.intercalate texts) := by
  induction texts with
  | nil => exact empty
  | cons text texts ih =>
    obtain ⟨first, rest⟩ := List.forall_mem_cons.1 all
    cases texts with
    | nil =>
      rw [String.intercalate_singleton]
      exact first
    | cons next texts =>
      rw [String.intercalate_cons_cons]
      exact append (append first between) (ih rest)

theorem join_of {holds : String → Prop} (empty : holds "")
    (append : ∀ {a b}, holds a → holds b → holds (a ++ b)) {texts : List String}
    (all : ∀ text ∈ texts, holds text) : holds (String.join texts) := by
  induction texts with
  | nil => exact empty
  | cons text texts ih =>
    obtain ⟨first, rest⟩ := List.forall_mem_cons.1 all
    rw [String.join_cons]
    exact append first (ih rest)

end Typings.Text
