import Typings.Token.Layout

/-!
# The tokens of a source text

A token of a source is an item of it or a semicolon that a line end brings about
(`Layout.of_mem_tokens`). So what holds of every item and of semicolons holds of every token: none
is the mark of the end of the text (`Layout.lexeme_ne_eof`), and a name begins and goes on as names
do (`Layout.isScanned_of_mem`).
-/

namespace Typings

/-- What is read off a result says that there is one. -/
theorem exists_of_toOption_map {ε α β : Type} {result : Except ε α} {read : α → β} {y : β}
    (h : result.toOption.map read = some y) : ∃ x, result = .ok x ∧ read x = y := by
  cases result with
  | error e => cases h
  | ok x => exact ⟨x, rfl, Option.some.inj h⟩

/-- A sequence of two steps succeeds by the success of both. -/
theorem exists_ok_of_bind {ε α β : Type} {x : Except ε α} {f : α → Except ε β} {y : β}
    (h : (x >>= f) = .ok y) : ∃ a, x = .ok a ∧ f a = .ok y := by
  cases x with
  | error e => cases h
  | ok a => exact ⟨a, rfl, h⟩

/-- What succeeds with its error told in other words succeeds. -/
theorem ok_of_mapError {ε δ α : Type} {x : Except ε α} {tell : ε → δ} {a : α}
    (h : x.mapError tell = .ok a) : x = .ok a := by
  cases x with
  | error e => cases h
  | ok b =>
    cases h
    rfl

theorem lineEnd_eq_semicolon {last : Option Lexeme} {p : Position} {t : Token}
    (mem : t ∈ lineEnd last p) : t.lexeme = .op .semicolon := by
  unfold lineEnd at mem
  split at mem
  · rw [List.mem_singleton.1 mem]
  · cases mem

theorem Layout.mem_ofItems {items : List Item} {p : Position} {last : Option Lexeme} {t : Token}
    (mem : t ∈ (ofItems p last items).tokens) :
    Item.word t.lexeme ∈ items ∨ t.lexeme = .op .semicolon := by
  induction items generalizing p last with
  | nil => exact .inr (lineEnd_eq_semicolon mem)
  | cons item items ih =>
    have later : ∀ {p last}, t ∈ (ofItems p last items).tokens →
        Item.word t.lexeme ∈ item :: items ∨ t.lexeme = .op .semicolon :=
      fun mem => (ih mem).imp_left (List.mem_cons_of_mem _)
    cases item with
    | blank => exact later mem
    | newline =>
      rcases List.mem_append.1 mem with here | behind
      · exact .inr (lineEnd_eq_semicolon here)
      · exact later behind
    | comment text =>
      rw [ofItems] at mem
      split at mem
      · rcases List.mem_append.1 mem with here | behind
        · exact .inr (lineEnd_eq_semicolon here)
        · exact later behind
      · exact later mem
    | word lexeme =>
      rcases List.mem_cons.1 mem with rfl | behind
      · exact .inl (List.mem_cons_self ..)
      · exact later behind

theorem exists_next_of_mem_scan {source : List Char} {item : Item} (mem : item ∈ (scan source).1) :
    ∃ c cs rest, Item.next c cs = .ok (item, rest) := by
  fun_induction scan source with
  | case1 => cases mem
  | case2 => cases mem
  | case3 c cs first rest here _ items fault scanned ih =>
    rw [scanned] at ih
    rcases List.mem_cons.1 mem with rfl | behind
    · exact ⟨c, cs, rest, here⟩
    · exact ih behind

/-- A token is an item of the source, or a semicolon. -/
theorem Layout.of_mem_tokens {source : String} {layout : Layout}
    (h : Layout.ofSource source = .ok layout) {t : Token} (mem : t ∈ layout.tokens) :
    (∃ c cs rest, Item.next c cs = .ok (.word t.lexeme, rest)) ∨ t.lexeme = .op .semicolon := by
  unfold ofSource at h
  dsimp only at h
  split at h
  · cases h
    exact (mem_ofItems mem).imp_left exists_next_of_mem_scan
  · cases h

/-! ## Words as items -/

/-- A word that is an item is a name that may stand as one, or it is no name and not the end. -/
def Lexeme.IsScanned : Lexeme → Prop
  | .ident name => ∃ c cs, name.toList = c :: cs ∧ beginsIdent c = true ∧
      cs.all continuesIdent = true
  | .eof => False
  | _ => True

theorem wordLexeme_isScanned {c : Char} (begins : beginsIdent c = true) (cs : List Char) :
    (wordLexeme (String.ofList (c :: cs.takeWhile continuesIdent))).IsScanned := by
  unfold wordLexeme
  split
  · trivial
  · refine ⟨c, _, String.toList_ofList, begins, ?_⟩
    exact List.all_takeWhile

theorem Item.next_isScanned {c : Char} {cs rest : List Char} {w : Lexeme}
    (h : Item.next c cs = .ok (.word w, rest)) : w.IsScanned := by
  cases Item.starts_of_next h with
  | number | quoted | raw | operator => trivial
  | name double single begins => exact wordLexeme_isScanned begins cs

theorem Layout.isScanned_of_mem {source : String} {layout : Layout}
    (h : Layout.ofSource source = .ok layout) {t : Token} (mem : t ∈ layout.tokens) :
    t.lexeme.IsScanned := by
  rcases of_mem_tokens h mem with ⟨c, cs, rest, next⟩ | semi
  · exact Item.next_isScanned next
  · rw [semi]
    trivial

/-- No token of a source is the end of it. -/
theorem Layout.lexeme_ne_eof {source : String} {layout : Layout}
    (h : Layout.ofSource source = .ok layout) {t : Token} (mem : t ∈ layout.tokens) :
    t.lexeme ≠ .eof := by
  intro same
  have scanned := isScanned_of_mem h mem
  rw [same] at scanned
  exact scanned

end Typings
