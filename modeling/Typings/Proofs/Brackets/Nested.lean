import Typings.Text.Line

/-!
# Closed texts

A text is closed if its brackets nest: each one that opens is closed by one of its kind, with nested
brackets between the two. The `>` of an arrow is no bracket. Whether brackets nest is decided by reading
them with those that are awaited (`isNested_iff`). Closed texts stay closed one behind the other
(`Closed.append`), and between brackets if they do not end in `=`, which a `>` behind it would make an
arrow of (`Frames.sealed`).
-/

namespace Typings

/-! ## Brackets that nest -/

/-- The brackets that open, each with the one that closes it. -/
def bracketPairs : List (Char × Char) := [('(', ')'), ('[', ']'), ('\x7b', '\x7d'), ('<', '>')]

/-- All brackets. -/
def bracketChars : List Char := ['(', ')', '[', ']', '\x7b', '\x7d', '<', '>']

/-- The brackets nest. -/
inductive IsNested : List Char → Prop where
  | nil : IsNested []
  | append {u v : List Char} : IsNested u → IsNested v → IsNested (u ++ v)
  | enclose {o c : Char} {u : List Char} : (o, c) ∈ bracketPairs → IsNested u → IsNested (o :: u ++ [c])

/-- Reading brackets while some are awaited, the first of them next: one that opens has the one that
closes it awaited, any other has to be the next that is. -/
def nests : List Char → List Char → Bool
  | awaited, [] => awaited.isEmpty
  | awaited, b :: bs =>
    match bracketPairs.lookup b with
    | some close => nests (close :: awaited) bs
    | none => awaited.head? == some b && nests awaited.tail bs

/-- An opening bracket has one closing one, which opens nothing. -/
theorem lookup_of_mem_bracketPairs :
    ∀ p ∈ bracketPairs, bracketPairs.lookup p.1 = some p.2 ∧ bracketPairs.lookup p.2 = none := by
  decide

theorem mem_of_lookup_bracketPairs {o c : Char} (h : bracketPairs.lookup o = some c) :
    (o, c) ∈ bracketPairs := by
  obtain ⟨front, back, same, -⟩ := List.lookup_eq_some_iff.1 h
  rw [same]
  exact List.mem_append_right _ List.mem_cons_self

/-- Nested brackets are read without a trace. -/
theorem IsNested.nests_append {u : List Char} (h : IsNested u) (awaited v : List Char) :
    nests awaited (u ++ v) = nests awaited v := by
  induction h generalizing awaited v with
  | nil => rfl
  | append _ _ first second => rw [List.append_assoc, first, second]
  | @enclose o c u pair _ ih =>
    obtain ⟨opens, closes⟩ := lookup_of_mem_bracketPairs _ pair
    have inside : nests awaited (o :: u ++ [c] ++ v) = nests (c :: awaited) (u ++ (c :: v)) := by
      rw [List.append_assoc, List.cons_append, nests, opens]
      rfl
    rw [inside, ih, nests, closes]
    simp

/-- Brackets that close those that are awaited, in their order, with nested ones before each of them
and behind the last. -/
inductive ClosesAll : List Char → List Char → Prop where
  | nil {u : List Char} : IsNested u → ClosesAll [] u
  | cons {u v awaited : List Char} (c : Char) :
    IsNested u → ClosesAll awaited v → ClosesAll (c :: awaited) (u ++ c :: v)

/-- Nested brackets before a text leave what is awaited as it is. -/
theorem ClosesAll.after {u v awaited : List Char} (nested : IsNested u) (h : ClosesAll awaited v) :
    ClosesAll awaited (u ++ v) := by
  cases h with
  | nil last => exact .nil (nested.append last)
  | cons c first rest =>
    rw [← List.append_assoc]
    exact .cons c (nested.append first) rest

/-- Brackets that the reader accepts close all that is awaited. -/
theorem closesAll_of_nests {awaited bs : List Char} (h : nests awaited bs = true) :
    ClosesAll awaited bs := by
  induction bs generalizing awaited with
  | nil =>
    rw [nests, List.isEmpty_iff] at h
    exact h ▸ .nil .nil
  | cons b bs ih =>
    rw [nests] at h
    cases closing : bracketPairs.lookup b with
    | some c =>
      rw [closing] at h
      have pair := mem_of_lookup_bracketPairs closing
      cases ih h with
      | @cons u v _ _ nested rest =>
        have closed := rest.after (IsNested.enclose pair nested)
        rwa [List.append_assoc] at closed
    | none =>
      rw [closing, Bool.and_eq_true, beq_iff_eq] at h
      obtain ⟨next, rest⟩ := h
      cases awaited with
      | nil => cases next
      | cons c awaited =>
        cases next
        exact .cons b .nil (ih rest)

/-- Brackets nest exactly if they are read to the end with none awaited. -/
theorem isNested_iff {bs : List Char} : IsNested bs ↔ nests [] bs = true := by
  constructor
  · intro h
    have read := h.nests_append [] []
    rwa [List.append_nil] at read
  · intro h
    cases closesAll_of_nests h with
    | nil nested => exact nested

instance : DecidablePred IsNested := fun _ => decidable_of_iff _ isNested_iff.symm

example : IsNested ['(', '<', '>', ')', '[', ']'] ∧ ¬IsNested ['(', '<', ')', '>'] := by decide

/-! ## The brackets of a text -/

/-- The brackets of a text, in order; `arrow` says that `=` stands before it, so that `>` is part of an
arrow. -/
def bracketsFrom (arrow : Bool) : List Char → List Char
  | [] => []
  | c :: cs =>
    if bracketChars.contains c && !(arrow && c == '>') then c :: bracketsFrom (c == '=') cs
    else bracketsFrom (c == '=') cs

/-- The brackets of a text, in order. The `>` of an arrow `=>` is none. -/
def brackets (text : String) : List Char := bracketsFrom false text.toList

/-- An equals sign before a text matters only if the text begins with `>`. -/
theorem bracketsFrom_of_head? {cs : List Char} (h : cs.head? ≠ some '>') (arrow : Bool) :
    bracketsFrom arrow cs = bracketsFrom false cs := by
  cases cs with
  | nil => rfl
  | cons c cs =>
    have other : (c == '>') = false := by simpa using h
    rw [bracketsFrom, bracketsFrom, other, Bool.and_false, Bool.and_false]

/-- What stands behind a text has brackets of its own, unless the two make an arrow. -/
theorem bracketsFrom_append {cs ds : List Char} {arrow : Bool}
    (apart : (if cs = [] then arrow else cs.getLast? == some '=') = false ∨ ds.head? ≠ some '>') :
    bracketsFrom arrow (cs ++ ds) = bracketsFrom arrow cs ++ bracketsFrom false ds := by
  induction cs generalizing arrow with
  | nil =>
    rcases apart with last | first
    · rw [if_pos rfl] at last
      rw [last]
      rfl
    · exact bracketsFrom_of_head? first arrow
  | cons c cs ih =>
    have rest : bracketsFrom (c == '=') (cs ++ ds) =
        bracketsFrom (c == '=') cs ++ bracketsFrom false ds := by
      refine ih (apart.imp_left fun last => ?_)
      cases cs with
      | nil => simpa using last
      | cons d cs => simpa using last
    rw [List.cons_append, bracketsFrom, bracketsFrom, rest]
    split <;> rfl

/-- The brackets of two texts stand one behind the other, unless an arrow forms between the texts. -/
theorem brackets_append {a b : String}
    (apart : a.toList.getLast? ≠ some '=' ∨ b.toList.head? ≠ some '>') :
    brackets (a ++ b) = brackets a ++ brackets b := by
  rw [brackets, String.toList_append]
  refine bracketsFrom_append (apart.imp_left fun last => ?_)
  split
  · rfl
  · simpa using last

/-! ## Texts without some characters -/

/-- None of the characters stands in the text. -/
def FreeOf (marks : List Char) (text : String) : Prop := ∀ m, m ∈ marks → m ∉ text.toList

/-- No bracket stands in the text. -/
def Bracketless (text : String) : Prop := FreeOf bracketChars text

instance {marks : List Char} : DecidablePred (FreeOf marks) := fun text =>
  decidable_of_iff (marks.all fun m => !text.toList.contains m) (by simp [FreeOf])

instance : DecidablePred Bracketless := fun text => inferInstanceAs (Decidable (FreeOf _ text))

namespace Bracketless

variable {a b : String}

theorem empty : Bracketless "" := fun _ _ => List.not_mem_nil

theorem append (ha : Bracketless a) (hb : Bracketless b) : Bracketless (a ++ b) := by
  intro m mark
  rw [String.toList_append]
  exact List.not_mem_append (ha m mark) (hb m mark)

theorem intercalate {separator : String} (between : Bracketless separator) {texts : List String}
    (h : ∀ text ∈ texts, Bracketless text) : Bracketless (separator.intercalate texts) :=
  Text.intercalate_of empty append between h

theorem join {texts : List String} (h : ∀ text ∈ texts, Bracketless text) :
    Bracketless (String.join texts) := Text.join_of empty append h

end Bracketless

/-- A text free of brackets has none to nest. -/
theorem Bracketless.brackets_eq_nil {text : String} (h : Bracketless text) : brackets text = [] := by
  have none : ∀ (cs : List Char) (arrow : Bool), (∀ c ∈ cs, c ∉ bracketChars) →
      bracketsFrom arrow cs = [] := by
    intro cs
    induction cs with
    | nil => exact fun _ _ => rfl
    | cons c cs ih =>
      intro arrow all
      obtain ⟨first, rest⟩ := List.forall_mem_cons.1 all
      have other : bracketChars.contains c = false := by simpa using first
      rw [bracketsFrom, other, Bool.false_and, if_neg Bool.false_ne_true]
      exact ih _ rest
  exact none _ _ fun c mem bracket => h c bracket mem

/-! ## Closed texts -/

/-- The brackets of the text nest. -/
def Closed (text : String) : Prop := IsNested (brackets text)

instance : DecidablePred Closed := fun text => inferInstanceAs (Decidable (IsNested (brackets text)))

/-- The text is closed, and a `>` behind it is a bracket. -/
structure Sealed (text : String) : Prop where
  closed : Closed text
  last : text.toList.getLast? ≠ some '='

instance : DecidablePred Sealed := fun text =>
  decidable_of_iff (Closed text ∧ text.toList.getLast? ≠ some '=')
    ⟨fun h => ⟨h.1, h.2⟩, fun h => ⟨h.closed, h.last⟩⟩

/-- A text free of brackets is closed. -/
theorem Bracketless.closed {text : String} (h : Bracketless text) : Closed text := by
  rw [Closed, h.brackets_eq_nil]
  exact .nil

/-- A text put together ends with no sign that neither part ends with. -/
theorem getLast?_append_ne {c : Char} {a b : String} (ha : a.toList.getLast? ≠ some c)
    (hb : b.toList.getLast? ≠ some c) : (a ++ b).toList.getLast? ≠ some c := by
  rw [String.toList_append, List.getLast?_append]
  cases last : b.toList.getLast? with
  | none => exact ha
  | some d =>
    rw [last] at hb
    exact hb

namespace Closed

variable {a b : String}

theorem empty : Closed "" := .nil

/-- Nothing is open before a closed text that it could close. -/
theorem head?_ne (h : Closed a) : a.toList.head? ≠ some '>' := by
  intro first
  obtain ⟨cs, chars⟩ := List.head?_eq_some_iff.1 first
  have read := isNested_iff.1 h
  rw [brackets, chars] at read
  exact absurd read Bool.false_ne_true

/-- Closed texts stand one behind the other: no arrow forms between them, as a closed text does not begin
with `>`. -/
theorem append (ha : Closed a) (hb : Closed b) : Closed (a ++ b) := by
  rw [Closed, brackets_append (.inr hb.head?_ne)]
  exact IsNested.append ha hb

/-- A text at the end of which a `>` is a bracket makes the whole such a text. -/
theorem append_sealed (ha : Closed a) (hb : Sealed b) (some : b ≠ "") : Sealed (a ++ b) := by
  refine ⟨ha.append hb.closed, ?_⟩
  rw [String.toList_append, List.getLast?_append]
  cases last : b.toList.getLast? with
  | none => exact absurd (String.toList_eq_nil_iff.1 (List.getLast?_eq_none_iff.1 last)) some
  | some c =>
    have other := hb.last
    rw [last] at other
    exact other

end Closed

namespace Sealed

variable {a b : String}

theorem empty : Sealed "" := ⟨.empty, nofun⟩

theorem append (ha : Sealed a) (hb : Sealed b) : Sealed (a ++ b) :=
  ⟨ha.closed.append hb.closed, getLast?_append_ne ha.last hb.last⟩

theorem intercalate {separator : String} (between : Sealed separator) {texts : List String}
    (h : ∀ text ∈ texts, Sealed text) : Sealed (separator.intercalate texts) :=
  Text.intercalate_of empty append between h

theorem join {texts : List String} (h : ∀ text ∈ texts, Sealed text) :
    Sealed (String.join texts) := Text.join_of empty append h

end Sealed

/-- The first text opens a bracket that the second one closes. -/
structure Frames (o c : Char) (l r : String) : Prop where
  pair : (o, c) ∈ bracketPairs
  opens : brackets l = [o]
  closes : brackets r = [c]
  begins : l.toList.getLast? ≠ some '='
  ends : r.toList.getLast? ≠ some '='

instance {o c : Char} {l r : String} : Decidable (Frames o c l r) :=
  decidable_of_iff ((o, c) ∈ bracketPairs ∧ brackets l = [o] ∧ brackets r = [c] ∧
      l.toList.getLast? ≠ some '=' ∧ r.toList.getLast? ≠ some '=')
    ⟨fun h => ⟨h.1, h.2.1, h.2.2.1, h.2.2.2.1, h.2.2.2.2⟩,
      fun h => ⟨h.pair, h.opens, h.closes, h.begins, h.ends⟩⟩

/-- A frame around a sealed text is sealed. -/
theorem Frames.sealed {o c : Char} {l r x : String} (h : Frames o c l r) (inside : Sealed x) :
    Sealed (l ++ x ++ r) := by
  have begun := getLast?_append_ne h.begins inside.last
  refine ⟨?_, getLast?_append_ne begun h.ends⟩
  rw [Closed, brackets_append (.inl begun), brackets_append (.inl h.begins), h.opens, h.closes]
  exact IsNested.enclose h.pair inside.closed

end Typings
