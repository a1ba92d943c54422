/-!
# Positions in a source text

Lines and columns count characters from 1. A position moves over a text character by character:
a newline begins the next line, any other character takes one column.
-/

namespace Typings

/-- A line and a column, both counted from 1. -/
structure Position where
  line : Nat
  col : Nat
  deriving DecidableEq, Repr

namespace Position

/-- The first position of a text. -/
def start : Position := ⟨1, 1⟩

/-- The position after a character. -/
def step (p : Position) (c : Char) : Position :=
  if c = '\n' then ⟨p.line + 1, 1⟩ else ⟨p.line, p.col + 1⟩

/-- The position after a text. -/
def after (p : Position) (text : List Char) : Position := text.foldl step p

/-- The position some columns further on the same line. -/
def right (p : Position) (columns : Nat) : Position := ⟨p.line, p.col + columns⟩

@[simp] theorem after_nil (p : Position) : p.after [] = p := rfl

@[simp] theorem after_cons (p : Position) (c : Char) (cs : List Char) :
    p.after (c :: cs) = (p.step c).after cs := rfl

theorem after_append (p : Position) (s t : List Char) : p.after (s ++ t) = (p.after s).after t :=
  List.foldl_append

/-- A text without newlines takes one column for each of its characters. -/
theorem after_eq_right (p : Position) {s : List Char} (h : '\n' ∉ s) :
    p.after s = p.right s.length := by
  induction s generalizing p with
  | nil => rfl
  | cons c cs ih =>
    have hc : c ≠ '\n' := fun e => h (e ▸ List.mem_cons_self)
    rw [after_cons, ih _ fun m => h (List.mem_cons_of_mem _ m)]
    simp [step, right, hc, Nat.add_comm, Nat.add_left_comm]

/-- The place of an error, as it ends a message. -/
def suffix (p : Position) : String := " at line " ++ toString p.line ++ " col " ++ toString p.col

end Position

end Typings
