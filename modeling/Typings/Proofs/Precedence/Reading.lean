import Typings.Proofs.Precedence.Forms

/-!
# Reading what is written

Words that spell a type are read as the form that they spell (`TsSpells.ofWords`), and so are the
words of each part of a type, given as many rounds as their number asks for (`TsSpells.isRead`).
-/

namespace Typings

namespace TsWord

/-- What can stand behind a whole type. -/
def stops : List TsWord → Bool
  | .less :: _ | .leftBracket :: _ | .bar :: _ | .colon :: _ => false
  | _ => true

theorem skip_self (w : TsWord) (ws : List TsWord) : w.skip (w :: ws) = some ws := if_pos rfl

/-- Where a parameter list begins, it does not go on. -/
theorem not_goesOnAsParams_of_begins {ws : List TsWord} (h : beginsParams ws = true) :
    goesOnAsParams ws = false := by
  unfold beginsParams at h
  split at h
  · rfl
  · cases h

/-- A name goes on with a parameter list only if a colon is behind it. -/
theorem not_goesOnAsParams_name {n : String} {rest : List TsWord} (h : rest.head? ≠ some .colon) :
    goesOnAsParams (.name n :: rest) = false := by
  cases rest with
  | nil => rfl
  | cons w ws => cases w <;> first | rfl | exact absurd rfl h

end TsWord

open TsWord

/-! ## How phrases begin -/

/-- Types and operands do not begin as what follows the parenthesis of parameters, and operands do
not begin as parameters; parameters do. -/
def TsPhrase.Begins : TsPhrase → List TsWord → Prop
  | .operand _, ws | .union _, ws =>
    (∀ rest, rest.head? ≠ some .colon → goesOnAsParams (ws ++ rest) = false) ∧
      ∀ rest, beginsParams (ws ++ rest) = false
  | .type _, ws => ∀ rest, rest.head? ≠ some .colon → goesOnAsParams (ws ++ rest) = false
  | .entries _, ws => ∀ rest, goesOnAsParams (ws ++ rest) = true
  | .params _, ws => ∀ rest, beginsParams (ws ++ rest) = true
  | _, _ => True

/-- What a phrase is spelled with begins as the phrase does, so that the reader takes the right turn. -/
theorem TsSpells.begins {p : TsPhrase} {ws : List TsWord} (h : TsSpells p ws) : p.Begins ws := by
  induction h with
  | name => exact ⟨fun rest h => not_goesOnAsParams_name h, fun rest => rfl⟩
  | generic => exact ⟨fun rest _ => rfl, fun rest => rfl⟩
  | @paren x ws _ ih =>
    refine ⟨fun rest _ => rfl, fun rest => ?_⟩
    rw [List.append_assoc]
    exact ih (.rightParen :: rest) nofun
  | object | tuple => exact ⟨fun rest _ => rfl, fun rest => rfl⟩
  | list _ ih =>
    refine ⟨fun rest _ => ?_, fun rest => ?_⟩
    · rw [List.append_assoc]
      exact ih.1 _ nofun
    · rw [List.append_assoc]
      exact ih.2 _
  | oneOperand _ ih => exact ih
  | moreOperands _ _ ih _ =>
    refine ⟨fun rest _ => ?_, fun rest => ?_⟩
    · rw [List.append_assoc]
      exact ih.1 _ nofun
    · rw [List.append_assoc]
      exact ih.2 _
  | union _ ih => exact ih.1
  | arrow _ _ ih _ =>
    intro rest _
    rw [List.append_assoc]
    exact not_goesOnAsParams_of_begins (ih _)
  | oneEntry | moreEntries | spread => exact fun rest => rfl
  | noParams => exact fun rest => rfl
  | @someParams _ ws _ ih =>
    intro rest
    rw [List.append_assoc]
    exact ih _
  | _ => trivial

/-! ## Reading back -/

open TsForm

/-- With enough rounds the words are read as the phrase, up to what stands behind them. -/
def TsPhrase.IsRead : TsPhrase → List TsWord → Prop
  | .operand x, ws => ∀ rounds rest, 4 * ws.length + 2 ≤ rounds → rest.head? ≠ some .less →
    readOperand rounds (ws ++ rest) = some (x.applyLists rest)
  | .union xs, ws => ∀ rounds rest, 4 * ws.length + 3 ≤ rounds → stops rest = true →
    readUnion rounds (ws ++ rest) = some (xs, rest)
  | .type x, ws => ∀ rounds rest, 4 * ws.length + 4 ≤ rounds → stops rest = true →
    readType rounds (ws ++ rest) = some (x, rest)
  | .types xs, ws => ∀ rounds rest, 4 * ws.length + 5 ≤ rounds → stops rest = true →
    rest.head? ≠ some .comma → readTypes rounds (ws ++ rest) = some (xs, rest)
  | .entries xs, ws => ∀ rounds rest, 4 * ws.length + 5 ≤ rounds → stops rest = true →
    rest.head? ≠ some .comma → readEntries rounds (ws ++ rest) = some (xs, rest)
  | .params xs, ws => ∀ rounds rest, 4 * ws.length + 5 ≤ rounds →
    readParams rounds (ws ++ rest) = some (xs, rest)
  | .member x, ws => ∀ rounds rest, 4 * ws.length + 5 ≤ rounds →
    readMember rounds (ws ++ .lineEnd :: rest) = some (x, .lineEnd :: rest)
  | .members xs, ws => ∀ rounds rest, 4 * ws.length + 5 ≤ rounds →
    readMembers rounds (ws ++ .rightBrace :: rest) = some (xs, rest)

section Steps

variable {rounds : Nat} {ws vs rest : List TsWord}

/-- Where an operand stops, neither arguments nor the type of a parameter follow. -/
theorem head?_ne_of_stops (h : stops rest = true) :
    rest.head? ≠ some .less ∧ rest.head? ≠ some .colon := by
  cases rest with
  | nil => exact ⟨nofun, nofun⟩
  | cons w ws =>
    constructor
    · rintro ⟨⟩
      cases h
    · rintro ⟨⟩
      cases h

/-- Where an operand stops, no brackets make a list of it. -/
theorem applyLists_of_stops (h : stops rest = true) (x : TsForm) : x.applyLists rest = (x, rest) := by
  unfold applyLists
  split
  · cases h
  · rfl

/-- A closed form is an operand with the brackets behind it. -/
theorem readOperand_of_closed {x : TsForm} (h : readClosed rounds ws = some (x, rest)) :
    readOperand (rounds + 1) ws = some (x.applyLists rest) := by
  rw [readOperand, h]
  rfl

theorem readClosed_name (n : String) (h : rest.head? ≠ some .less) :
    readClosed (rounds + 1) (.name n :: rest) = some (.name n, rest) := by
  rw [readClosed]
  rintro ws rfl
  exact h rfl

/-- A name with arguments is closed by the bracket behind them. -/
theorem readClosed_generic {n : String} {xs : List TsForm}
    (args : readTypes rounds ws = some (xs, .greater :: rest)) :
    readClosed (rounds + 1) (.name n :: .less :: ws) = some (.generic (.name n) xs, rest) := by
  rw [readClosed, args]
  rfl

/-- Parentheses around a type close it and leave no other trace. -/
theorem readClosed_paren {x : TsForm} (inside : readType rounds ws = some (x, .rightParen :: rest)) :
    readClosed (rounds + 1) (.leftParen :: ws) = some (x, rest) := by
  rw [readClosed, inside]
  rfl

theorem readClosed_object {xs : List TsForm} (inside : readMembers rounds ws = some (xs, rest)) :
    readClosed (rounds + 1) (.leftBrace :: .lineEnd :: ws) = some (.object xs, rest) := by
  rw [readClosed, skip_self]
  show (readMembers rounds ws).bind _ = _
  rw [inside]
  rfl

theorem readClosed_tuple {xs : List TsForm}
    (inside : readTypes rounds ws = some (xs, .rightBracket :: rest)) :
    readClosed (rounds + 1) (.leftBracket :: ws) = some (.tuple xs, rest) := by
  rw [readClosed, inside]
  rfl

theorem readUnion_one {x : TsForm} (h : readOperand rounds ws = some (x, rest))
    (ends : stops rest = true) : readUnion (rounds + 1) ws = some (x.operands, rest) := by
  rw [readUnion, h]
  cases rest with
  | nil => rfl
  | cons w ws => cases w <;> first | rfl | cases ends

/-- Operands that are read in parentheses are put among the others. -/
theorem readUnion_more {x : TsForm} {xs : List TsForm}
    (operand : readOperand rounds ws = some (x, .bar :: vs))
    (later : readUnion rounds vs = some (xs, rest)) :
    readUnion (rounds + 1) ws = some (x.operands ++ xs, rest) := by
  rw [readUnion, operand]
  show (readUnion rounds vs).bind _ = _
  rw [later]
  rfl

theorem readType_union {xs : List TsForm} (begins : beginsParams ws = false)
    (h : readUnion rounds ws = some (xs, rest)) :
    readType (rounds + 1) ws = some (.ofOperands xs, rest) := by
  rw [readType, begins, h]
  rfl

/-- A type that begins with a parameter list is a function up to the end of its result. -/
theorem readType_arrow {xs : List TsForm} {x : TsForm} (begins : beginsParams ws = true)
    (params : readParams rounds ws = some (xs, .arrow :: vs))
    (result : readType rounds vs = some (x, rest)) :
    readType (rounds + 1) ws = some (.arrow xs x, rest) := by
  rw [readType, begins, params]
  show (readType rounds vs).bind _ = _
  rw [result]
  rfl

theorem readTypes_one {x : TsForm} (h : readType rounds ws = some (x, rest))
    (ends : rest.head? ≠ some .comma) : readTypes (rounds + 1) ws = some ([x], rest) := by
  rw [readTypes, h]
  cases rest with
  | nil => rfl
  | cons w ws => cases w <;> first | rfl | exact absurd rfl ends

theorem readTypes_more {x : TsForm} {xs : List TsForm}
    (first : readType rounds ws = some (x, .comma :: vs))
    (later : readTypes rounds vs = some (xs, rest)) :
    readTypes (rounds + 1) ws = some (x :: xs, rest) := by
  rw [readTypes, first]
  show (readTypes rounds vs).bind _ = _
  rw [later]
  rfl

theorem readEntries_one {n : String} {x : TsForm} (h : readType rounds ws = some (x, rest))
    (ends : rest.head? ≠ some .comma) :
    readEntries (rounds + 1) (.name n :: .colon :: ws) = some ([x], rest) := by
  rw [readEntries, h]
  cases rest with
  | nil => rfl
  | cons w ws => cases w <;> first | rfl | exact absurd rfl ends

theorem readEntries_more {n : String} {x : TsForm} {xs : List TsForm}
    (first : readType rounds ws = some (x, .comma :: vs))
    (later : readEntries rounds vs = some (xs, rest)) :
    readEntries (rounds + 1) (.name n :: .colon :: ws) = some (x :: xs, rest) := by
  rw [readEntries, first]
  show (readEntries rounds vs).bind _ = _
  rw [later]
  rfl

theorem readParams_of_entries {xs : List TsForm}
    (h : readEntries rounds ws = some (xs, .rightParen :: rest)) :
    readParams (rounds + 1) (.leftParen :: ws) = some (xs, rest) := by
  rw [readParams, h]
  · rfl
  · rintro ws rfl
    cases rounds <;> cases h

/-- A member that begins with a parameter list is a method. -/
theorem readMember_method {xs : List TsForm} {x : TsForm} (begins : beginsParams ws = true)
    (params : readParams rounds ws = some (xs, .colon :: vs))
    (result : readType rounds vs = some (x, rest)) :
    readMember (rounds + 1) ws = some (.arrow xs x, rest) := by
  unfold beginsParams at begins
  split at begins
  · rw [readMember, params]
    show (readType rounds vs).bind _ = _
    rw [result]
    rfl
  · cases begins

/-- A member with nothing but names behind its key is one of any type. -/
theorem readMember_bare (names : List String) :
    readMember (rounds + 1) (names.map TsWord.name ++ .lineEnd :: rest) =
      some (.any, .lineEnd :: rest) := by
  have passed : (names.map TsWord.name ++ .lineEnd :: rest).dropWhile (· ≠ .lineEnd) =
      .lineEnd :: rest := by
    rw [List.dropWhile_append_of_pos]
    · rfl
    · intro w mem
      obtain ⟨n, _, rfl⟩ := List.mem_map.1 mem
      rfl
  cases names with
  | nil => rfl
  | cons n names =>
    rw [List.map_cons, List.cons_append] at passed ⊢
    rw [readMember, passed]
    all_goals nofun

/-- Members are read line by line. -/
theorem readMembers_cons {key : TsWord} {x : TsForm} {xs : List TsForm} (isKey : key.isKey = true)
    (member : readMember rounds ws = some (x, .lineEnd :: vs))
    (later : readMembers rounds vs = some (xs, rest)) :
    readMembers (rounds + 1) (key :: ws) = some (x :: xs, rest) := by
  have step : readMembers (rounds + 1) (key :: ws) = (do
      let first ← if key.isKey then readMember rounds ws else none
      let behind ← TsWord.lineEnd.skip first.2
      let others ← readMembers rounds behind
      some (first.1 :: others.1, others.2)) := by
    cases key <;> first | rfl | cases isKey
  rw [step, if_pos isKey, member]
  show (readMembers rounds vs).bind _ = _
  rw [later]
  rfl

end Steps

/-- What spells a type is read back as the type, with rounds to spare, if what follows does not go on with
it. By induction over the spelling: each rule is one turn of the reader, and what is known of the head of
each part (`TsSpells.begins`) excludes the other turns. -/
theorem TsSpells.isRead {p : TsPhrase} {ws : List TsWord} (h : TsSpells p ws) : p.IsRead ws := by
  induction h with
  | @name n =>
    intro rounds rest enough more
    obtain ⟨k, rfl⟩ := Nat.exists_eq_add_of_le' (show 2 ≤ rounds by omega)
    exact readOperand_of_closed (readClosed_name n more)
  | @generic n args ws _ ih =>
    intro rounds rest enough more
    obtain ⟨k, rfl⟩ := Nat.exists_eq_add_of_le' (show 2 ≤ rounds by omega)
    simp only [List.length_append, List.length_cons, List.length_nil] at enough
    have args := ih k (.greater :: rest) (by omega) rfl nofun
    rw [List.append_assoc]
    exact readOperand_of_closed (readClosed_generic args)
  | @paren x ws _ ih =>
    intro rounds rest enough more
    obtain ⟨k, rfl⟩ := Nat.exists_eq_add_of_le' (show 2 ≤ rounds by omega)
    simp only [List.length_append, List.length_cons, List.length_nil] at enough
    have inside := ih k (.rightParen :: rest) (by omega) rfl
    rw [List.append_assoc]
    exact readOperand_of_closed (readClosed_paren inside)
  | @object xs ws _ ih =>
    intro rounds rest enough more
    obtain ⟨k, rfl⟩ := Nat.exists_eq_add_of_le' (show 2 ≤ rounds by omega)
    simp only [List.length_append, List.length_cons, List.length_nil] at enough
    have inside := ih k rest (by omega)
    rw [List.append_assoc]
    exact readOperand_of_closed (readClosed_object inside)
  | @tuple xs ws _ ih =>
    intro rounds rest enough more
    obtain ⟨k, rfl⟩ := Nat.exists_eq_add_of_le' (show 2 ≤ rounds by omega)
    simp only [List.length_append, List.length_cons, List.length_nil] at enough
    have inside := ih k (.rightBracket :: rest) (by omega) rfl nofun
    rw [List.append_assoc]
    exact readOperand_of_closed (readClosed_tuple inside)
  | @list x ws _ ih =>
    intro rounds rest enough more
    simp only [List.length_append, List.length_cons, List.length_nil] at enough
    rw [List.append_assoc]
    exact ih rounds (.leftBracket :: .rightBracket :: rest) (by omega) nofun
  | @oneOperand x ws _ ih =>
    intro rounds rest enough ends
    obtain ⟨k, rfl⟩ := Nat.exists_eq_add_of_le' (show 1 ≤ rounds by omega)
    have operand := ih k rest (by omega) (head?_ne_of_stops ends).1
    rw [applyLists_of_stops ends] at operand
    exact readUnion_one operand ends
  | @moreOperands x xs ws vs _ _ ih ihs =>
    intro rounds rest enough ends
    obtain ⟨k, rfl⟩ := Nat.exists_eq_add_of_le' (show 1 ≤ rounds by omega)
    simp only [List.length_append, List.length_cons] at enough
    have operand := ih k (.bar :: (vs ++ rest)) (by omega) nofun
    have later := ihs k rest (by omega) ends
    rw [List.append_assoc]
    exact readUnion_more operand later
  | @union xs ws spells ih =>
    intro rounds rest enough ends
    obtain ⟨k, rfl⟩ := Nat.exists_eq_add_of_le' (show 1 ≤ rounds by omega)
    exact readType_union (spells.begins.2 rest) (ih k rest (by omega) ends)
  | @arrow xs x ws vs spells _ ih ihs =>
    intro rounds rest enough ends
    obtain ⟨k, rfl⟩ := Nat.exists_eq_add_of_le' (show 1 ≤ rounds by omega)
    simp only [List.length_append, List.length_cons] at enough
    have params := ih k (.arrow :: (vs ++ rest)) (by omega)
    have result := ihs k rest (by omega) ends
    rw [List.append_assoc]
    exact readType_arrow (spells.begins _) params result
  | @oneType x ws _ ih =>
    intro rounds rest enough ends comma
    obtain ⟨k, rfl⟩ := Nat.exists_eq_add_of_le' (show 1 ≤ rounds by omega)
    exact readTypes_one (ih k rest (by omega) ends) comma
  | @moreTypes x xs ws vs _ _ ih ihs =>
    intro rounds rest enough ends comma
    obtain ⟨k, rfl⟩ := Nat.exists_eq_add_of_le' (show 1 ≤ rounds by omega)
    simp only [List.length_append, List.length_cons] at enough
    have first := ih k (.comma :: (vs ++ rest)) (by omega) rfl
    have later := ihs k rest (by omega) ends comma
    rw [List.append_assoc]
    exact readTypes_more first later
  | @oneEntry n x ws _ ih =>
    intro rounds rest enough ends comma
    obtain ⟨k, rfl⟩ := Nat.exists_eq_add_of_le' (show 1 ≤ rounds by omega)
    simp only [List.length_cons] at enough
    exact readEntries_one (ih k rest (by omega) ends) comma
  | @moreEntries n x xs ws vs _ _ ih ihs =>
    intro rounds rest enough ends comma
    obtain ⟨k, rfl⟩ := Nat.exists_eq_add_of_le' (show 1 ≤ rounds by omega)
    simp only [List.length_append, List.length_cons] at enough
    have first := ih k (.comma :: (vs ++ rest)) (by omega) rfl
    have later := ihs k rest (by omega) ends comma
    rw [List.append_assoc]
    exact readEntries_more first later
  | @spread xs ws _ ih =>
    intro rounds rest enough ends comma
    obtain ⟨k, rfl⟩ := Nat.exists_eq_add_of_le' (show 1 ≤ rounds by omega)
    simp only [List.length_cons] at enough
    rw [List.cons_append, readEntries]
    exact ih k rest (by omega) ends comma
  | noParams =>
    intro rounds rest enough
    obtain ⟨k, rfl⟩ := Nat.exists_eq_add_of_le' (show 1 ≤ rounds by omega)
    rfl
  | @someParams xs ws _ ih =>
    intro rounds rest enough
    obtain ⟨k, rfl⟩ := Nat.exists_eq_add_of_le' (show 1 ≤ rounds by omega)
    simp only [List.length_append, List.length_cons, List.length_nil] at enough
    rw [List.append_assoc, List.cons_append]
    exact readParams_of_entries (ih k (.rightParen :: rest) (by omega) rfl nofun)
  | @optional x ws _ ih =>
    intro rounds rest enough
    obtain ⟨k, rfl⟩ := Nat.exists_eq_add_of_le' (show 1 ≤ rounds by omega)
    simp only [List.length_cons] at enough
    rw [List.cons_append, readMember]
    exact ih k rest (by omega)
  | @typed x ws _ ih =>
    intro rounds rest enough
    obtain ⟨k, rfl⟩ := Nat.exists_eq_add_of_le' (show 1 ≤ rounds by omega)
    simp only [List.length_cons] at enough
    rw [List.cons_append, readMember]
    exact ih k (.lineEnd :: rest) (by omega) rfl
  | @method xs x ws vs spells _ ih ihs =>
    intro rounds rest enough
    obtain ⟨k, rfl⟩ := Nat.exists_eq_add_of_le' (show 1 ≤ rounds by omega)
    simp only [List.length_append, List.length_cons] at enough
    have params := ih k (.colon :: (vs ++ .lineEnd :: rest)) (by omega)
    have result := ihs k (.lineEnd :: rest) (by omega) rfl
    rw [List.append_assoc]
    exact readMember_method (spells.begins _) params result
  | @bare names =>
    intro rounds rest enough
    obtain ⟨k, rfl⟩ := Nat.exists_eq_add_of_le' (show 1 ≤ rounds by omega)
    exact readMember_bare names
  | noMembers =>
    intro rounds rest enough
    obtain ⟨k, rfl⟩ := Nat.exists_eq_add_of_le' (show 1 ≤ rounds by omega)
    rfl
  | @emptyLine xs ws _ ih =>
    intro rounds rest enough
    obtain ⟨k, rfl⟩ := Nat.exists_eq_add_of_le' (show 1 ≤ rounds by omega)
    simp only [List.length_cons] at enough
    rw [List.cons_append, readMembers]
    exact ih k rest (by omega)
  | @moreMembers key x xs ws vs isKey _ _ ih ihs =>
    intro rounds rest enough
    obtain ⟨k, rfl⟩ := Nat.exists_eq_add_of_le' (show 1 ≤ rounds by omega)
    simp only [List.length_append, List.length_cons] at enough
    have member := ih k (vs ++ .rightBrace :: rest) (by omega)
    have later := ihs k rest (by omega)
    rw [List.append_assoc]
    exact readMembers_cons isKey member later

/-- Words that spell a type are read as the form that they spell. -/
theorem TsSpells.ofWords {x : TsForm} {ws : List TsWord} (h : TsSpells (.type x) ws) :
    TsForm.ofWords ws = some x := by
  have read := h.isRead (4 * ws.length + 4) [] (Nat.le_refl _) rfl
  rw [List.append_nil] at read
  rw [TsForm.ofWords, read]

/-- The body of a function takes the bar in, and `[]` applies to the operand before it. -/
example : TsForm.ofWords [.leftParen, .rightParen, .arrow, .name "A", .bar, .name "B",
      .leftBracket, .rightBracket] =
    some (.arrow [] (.union [.name "A", .list (.name "B")])) := rfl

end Typings
