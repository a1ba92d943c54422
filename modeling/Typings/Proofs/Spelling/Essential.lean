import Typings.Token.Basic

/-!
# What is essential in a sequence of lexemes

Semicolons and commas before a closing bracket may be there or not. Without them a sequence of
lexemes is its essence. Two sequences mean the same if their essences agree wherever they stand,
whatever is before and behind them; this relation is a congruence (`Means.append`), so that what a
parser passed may be compared with a spelling piece by piece.
-/

namespace Typings

/-- A closing bracket of any kind. -/
def Lexeme.closes : Lexeme → Bool
  | .op .rightParen | .op .rightBracket | .op .rightBrace => true
  | _ => false

/-- The lexemes without each comma that directly precedes a closing bracket. -/
def dropClosingCommas : List Lexeme → List Lexeme
  | [] => []
  | w :: ws =>
    if w = .op .comma && ws.head?.any Lexeme.closes then dropClosingCommas ws
    else w :: dropClosingCommas ws

/-- The lexemes without the semicolons. -/
def dropSemis (ws : List Lexeme) : List Lexeme := ws.filter (· ≠ .op .semicolon)

/-- The lexemes without semicolons, and then without the commas before closing brackets. -/
def essence (ws : List Lexeme) : List Lexeme := dropClosingCommas (dropSemis ws)

theorem dropSemis_append (us vs : List Lexeme) :
    dropSemis (us ++ vs) = dropSemis us ++ dropSemis vs := List.filter_append _ _

theorem dropSemis_cons {w : Lexeme} (ws : List Lexeme) (h : w ≠ .op .semicolon) :
    dropSemis (w :: ws) = w :: dropSemis ws :=
  List.filter_cons_of_pos (by simpa using h)

/-- Nothing is left of semicolons alone. -/
theorem dropSemis_eq_nil {ws : List Lexeme} (h : ∀ w ∈ ws, w = .op .semicolon) :
    dropSemis ws = [] := by
  rw [dropSemis, List.filter_eq_nil_iff]
  intro w mem
  simp [h w mem]

/-- Lexemes that start alike and go on with the same essence do so behind any others. -/
theorem dropClosingCommas_append {us vs : List Lexeme} (ws : List Lexeme)
    (head : us.head? = vs.head?) (rest : dropClosingCommas us = dropClosingCommas vs) :
    dropClosingCommas (ws ++ us) = dropClosingCommas (ws ++ vs) := by
  induction ws with
  | nil => exact rest
  | cons w ws ih =>
    have same : (ws ++ us).head? = (ws ++ vs).head? := by
      cases ws with
      | nil => exact head
      | cons => rfl
    rw [List.cons_append, List.cons_append, dropClosingCommas, dropClosingCommas, same, ih]

/-- Two sequences of lexemes have the same essence wherever they stand. -/
def Means (us vs : List Lexeme) : Prop :=
  ∀ before after, essence (before ++ us ++ after) = essence (before ++ vs ++ after)

namespace Means

@[refl] theorem refl (us : List Lexeme) : Means us us := fun _ _ => rfl

theorem symm {us vs : List Lexeme} (h : Means us vs) : Means vs us :=
  fun before after => (h before after).symm

theorem trans {us vs ws : List Lexeme} (h : Means us vs) (k : Means vs ws) : Means us ws :=
  fun before after => (h before after).trans (k before after)

/-- What means the same in parts means the same put together. -/
theorem append {us us' vs vs' : List Lexeme} (h : Means us us') (k : Means vs vs') :
    Means (us ++ vs) (us' ++ vs') := by
  intro before after
  have first := h before (vs ++ after)
  have second := k (before ++ us') after
  simp only [List.append_assoc] at first second ⊢
  exact first.trans second

theorem cons (w : Lexeme) {us vs : List Lexeme} (h : Means us vs) : Means (w :: us) (w :: vs) :=
  append (refl [w]) h

/-- What means the same has the same essence. -/
theorem essence_eq {us vs : List Lexeme} (h : Means us vs) : essence us = essence vs := by
  simpa only [List.nil_append, List.append_nil] using h [] []

/-- Semicolons mean nothing. -/
theorem of_semis {us : List Lexeme} (h : ∀ w ∈ us, w = .op .semicolon) : Means us [] := by
  intro before after
  rw [essence, essence, dropSemis_append, dropSemis_append, dropSemis_append, dropSemis_append,
    dropSemis_eq_nil h]
  rfl

end Means

/-- The last lexeme that is not a semicolon is there, and it is no comma. -/
def EndsFirmly (us : List Lexeme) : Prop :=
  ∃ vs w, dropSemis us = vs ++ [w] ∧ w ≠ .op .comma

namespace EndsFirmly

/-- A word that is neither semicolon nor comma ends firmly. -/
theorem of_single {w : Lexeme} (semi : w ≠ .op .semicolon) (comma : w ≠ .op .comma) :
    EndsFirmly [w] :=
  ⟨[], w, dropSemis_cons [] semi, comma⟩

/-- What ends firmly does so behind anything. -/
theorem append_left (us : List Lexeme) {vs : List Lexeme} (h : EndsFirmly vs) :
    EndsFirmly (us ++ vs) := by
  obtain ⟨ws, w, hw, comma⟩ := h
  refine ⟨dropSemis us ++ ws, w, ?_, comma⟩
  rw [dropSemis_append, hw, List.append_assoc]

theorem cons (u : Lexeme) {vs : List Lexeme} (h : EndsFirmly vs) : EndsFirmly (u :: vs) :=
  append_left [u] h

end EndsFirmly

/-- A comma between something and a closing bracket means nothing. -/
theorem Means.drop_comma {us : List Lexeme} {close : Lexeme} (firm : EndsFirmly us)
    (closes : close.closes = true) : Means (us ++ [.op .comma, close]) (us ++ [close]) := by
  intro before after
  obtain ⟨vs, w, hw, comma⟩ := firm
  have keep : close ≠ .op .semicolon := by
    rintro rfl
    cases closes
  have whole : dropClosingCommas
        (dropSemis before ++ vs ++ w :: .op .comma :: close :: dropSemis after) =
      dropClosingCommas (dropSemis before ++ vs ++ w :: close :: dropSemis after) := by
    apply dropClosingCommas_append
    · rfl
    · simp [dropClosingCommas, comma, closes]
  have comma_keep : Lexeme.op .comma ≠ .op .semicolon := by decide
  simpa only [essence, dropSemis_append, hw, dropSemis_cons _ comma_keep, dropSemis_cons _ keep,
    dropSemis_eq_nil (List.forall_mem_nil _), List.append_assoc, List.cons_append,
    List.nil_append] using whole

end Typings
