import Typings.Proofs.Token.Spaced

/-!
# One source above another

Two sources with an empty line between them are laid out as each of them alone, the second so many
lines further down (`Layout.ofSource_above`): every item ends at a newline, and a newline brings about
the semicolon that the end of the first source would. All that belongs to the first stands on lines
above those of the second, with an empty line between (`Layout.Spans`).
-/

namespace Typings

/-! ## Items -/

/-- The items of a text before a newline are those of the text alone. -/
theorem scan_append_newline {cs more : List Char} (complete : (scan cs).2 = none) :
    scan (cs ++ '\n' :: more) =
      ((scan cs).1 ++ .newline :: (scan more).1, (scan more).2) := by
  fun_induction scan cs with
  | case1 =>
    have newline : Item.next '\n' more = .ok (.newline, more) := rfl
    rw [List.nil_append, scan_cons newline]
    rfl
  | case2 => cases complete
  | case3 c cs item left next _ items fault scanned ih =>
    rw [scanned] at ih
    rw [List.cons_append, scan_cons (Item.next_append (.inr rfl) (.inl rfl) next), ih complete]
    rfl

/-! ## Lines further down -/

/-- The place so many lines further down. -/
def Position.down (k : Nat) (p : Position) : Position := ⟨p.line + k, p.col⟩

/-- The token so many lines further down. -/
def Token.down (k : Nat) (t : Token) : Token := { t with pos := t.pos.down k }

/-- The comment so many lines further down. -/
def Comment.down (k : Nat) (m : Comment) : Comment :=
  { m with pos := m.pos.down k, endLine := m.endLine + k }

/-- The layout so many lines further down. -/
def Layout.down (k : Nat) (l : Layout) : Layout :=
  ⟨l.tokens.map (Token.down k), l.comments.map (Comment.down k), l.stop.down k⟩

/-- The layout of two sources with an empty line between them. -/
def Layout.above (l m : Layout) : Layout :=
  let k := l.stop.line + 1
  ⟨l.tokens ++ (m.down k).tokens, l.comments ++ (m.down k).comments, (m.down k).stop⟩

theorem Position.after_down (k : Nat) (p : Position) (text : List Char) :
    (p.down k).after text = (p.after text).down k := by
  induction text generalizing p with
  | nil => rfl
  | cons c text ih =>
    have step : (p.down k).step c = (p.step c).down k := by
      unfold step
      split
      · exact congrArg (Position.mk · 1) (Nat.add_right_comm ..)
      · rfl
    rw [after_cons, after_cons, step, ih]

theorem Item.stop_down (k : Nat) (item : Item) (p : Position) :
    item.stop (p.down k) = (item.stop p).down k := by
  unfold stop
  split
  · rfl
  · exact Position.after_down k p item.text

theorem lineEnd_down (k : Nat) (last : Option Lexeme) (p : Position) :
    lineEnd last (p.down k) = (lineEnd last p).map (Token.down k) := by
  unfold lineEnd
  split <;> rfl

namespace Layout

theorem withTokens_down (k : Nat) (ts : List Token) (l : Layout) :
    (l.withTokens ts).down k = (l.down k).withTokens (ts.map (Token.down k)) := by
  simp only [withTokens, down, List.map_append]

/-- Items that start further down are laid out further down. -/
theorem ofItems_down (k : Nat) (p : Position) (last : Option Lexeme) (items : List Item) :
    ofItems (p.down k) last items = (ofItems p last items).down k := by
  induction items generalizing p last with
  | nil =>
    rw [ofItems, ofItems, lineEnd_down]
    rfl
  | cons item items ih =>
    cases item with
    | blank c => rw [ofItems, ofItems, Item.stop_down, ih]
    | newline => rw [ofItems, ofItems, Item.stop_down, ih, lineEnd_down, withTokens_down]
    | comment text =>
      rw [ofItems, ofItems, Item.stop_down]
      split
      · rw [ih, lineEnd_down, ← withTokens_down]
        rfl
      · rw [ih]
        rfl
    | word lexeme =>
      rw [ofItems, ofItems, Item.stop_down, ih, withTokens_down]
      rfl

/-! ## The seam -/

/-- Behind some items and a newline, a layout goes on as on a new line. -/
theorem ofItems_append_newline (p : Position) (last : Option Lexeme) (items more : List Item) :
    ofItems p last (items ++ .newline :: more) =
      let first := ofItems p last items
      let rest := ofItems ⟨first.stop.line + 1, 1⟩ none more
      ⟨first.tokens ++ rest.tokens, first.comments ++ rest.comments, rest.stop⟩ := by
  induction items generalizing p last with
  | nil => rfl
  | cons item items ih =>
    rw [List.cons_append]
    cases item with
    | blank c => rw [ofItems, ofItems, ih]
    | newline =>
      rw [ofItems, ofItems, ih]
      simp only [withTokens, List.append_assoc]
    | comment text =>
      rw [ofItems, ofItems]
      split
      · rw [ih]
        simp only [withTokens, withComment, List.append_assoc, List.cons_append]
      · rw [ih]
        rfl
    | word lexeme =>
      rw [ofItems, ofItems, ih]
      rfl

theorem ofSource_eq_ok {s : String} {l : Layout} :
    ofSource s = .ok l ↔ (scan s.toList).2 = none ∧ l = ofItems .start none (scan s.toList).1 := by
  unfold ofSource
  cases scan s.toList with
  | mk items fault =>
    cases fault with
    | none => exact ⟨fun h => ⟨rfl, (Except.ok.inj h).symm⟩, fun h => congrArg Except.ok h.2.symm⟩
    | some cause =>
      constructor
      · intro h
        cases h
      · rintro ⟨h, _⟩
        cases h

/-- Two sources with an empty line between them are laid out one above the other. -/
theorem ofSource_above {s t : String} {l m : Layout} (first : ofSource s = .ok l)
    (second : ofSource t = .ok m) : ofSource (s ++ "\n\n" ++ t) = .ok (l.above m) := by
  obtain ⟨complete, rfl⟩ := ofSource_eq_ok.1 first
  obtain ⟨complete', rfl⟩ := ofSource_eq_ok.1 second
  have text : (s ++ "\n\n" ++ t).toList = s.toList ++ '\n' :: ([] ++ '\n' :: t.toList) := by
    simp
  have seam : scan ([] ++ '\n' :: t.toList) = (.newline :: (scan t.toList).1, none) := by
    have nothing : scan [] = ([], none) := by rw [scan.eq_def]
    rw [scan_append_newline (by rw [nothing]), nothing, complete']
    rfl
  refine ofSource_eq_ok.2 ⟨?_, ?_⟩
  · rw [text, scan_append_newline complete, seam]
  · rw [text, scan_append_newline complete, seam, ofItems_append_newline]
    have below : ∀ line : Nat, ofItems ⟨line + 1, 1⟩ none (.newline :: (scan t.toList).1) =
        (ofItems .start none (scan t.toList).1).down (line + 1) := by
      intro line
      rw [← ofItems_down, ofItems]
      have start : Item.newline.stop ⟨line + 1, 1⟩ = Position.start.down (line + 1) :=
        congrArg (Position.mk · 1) (Nat.add_comm ..)
      rw [start]
      rfl
    dsimp only
    rw [below]
    rfl

/-! ## Where things stand -/

/-- All of a layout stands on lines from the given one on and up to its end. -/
structure Spans (l : Layout) (line : Nat) : Prop where
  tokens : ∀ t ∈ l.tokens, line ≤ t.pos.line ∧ t.pos.line ≤ l.stop.line
  comments : ∀ m ∈ l.comments, line ≤ m.pos.line ∧ m.pos.line ≤ l.stop.line ∧
    line ≤ m.endLine ∧ m.endLine ≤ l.stop.line
  stop : line ≤ l.stop.line

end Layout

theorem Position.line_le_after (p : Position) (text : List Char) : p.line ≤ (p.after text).line := by
  induction text generalizing p with
  | nil => exact Nat.le_refl _
  | cons c text ih =>
    refine Nat.le_trans ?_ (ih (p.step c))
    unfold step
    split
    · exact Nat.le_succ _
    · exact Nat.le_refl _

theorem Item.line_le_stop (item : Item) (p : Position) : p.line ≤ (item.stop p).line := by
  unfold stop
  split
  · exact Nat.le_refl _
  · exact p.line_le_after _

namespace Layout

namespace Spans

variable {l : Layout} {line before : Nat}

theorem mono (h : l.Spans line) (le : before ≤ line) : l.Spans before where
  tokens t mem := ⟨Nat.le_trans le (h.tokens t mem).1, (h.tokens t mem).2⟩
  comments m mem := by
    have here := h.comments m mem
    omega
  stop := Nat.le_trans le h.stop

/-- A token in front, on a line before all others. -/
theorem withTokens {ts : List Token} (h : l.Spans line) (here : ∀ t ∈ ts, t.pos.line = line) :
    (l.withTokens ts).Spans line where
  tokens t mem := by
    rcases List.mem_append.1 mem with front | behind
    · exact ⟨Nat.le_of_eq (here t front).symm, (here t front).symm ▸ h.stop⟩
    · exact h.tokens t behind
  comments := h.comments
  stop := h.stop

theorem withComment {m : Comment} (h : l.Spans line) (begins : m.pos.line = line)
    (ends : line ≤ m.endLine ∧ m.endLine ≤ l.stop.line) : (l.withComment m).Spans line where
  tokens := h.tokens
  comments m' mem := by
    rcases List.mem_cons.1 mem with rfl | behind
    · exact ⟨Nat.le_of_eq begins.symm, begins.symm ▸ h.stop, ends⟩
    · exact h.comments m' behind
  stop := h.stop

end Spans

theorem line_lineEnd (last : Option Lexeme) (p : Position) :
    ∀ t ∈ lineEnd last p, t.pos.line = p.line := by
  unfold lineEnd
  split
  · exact List.forall_mem_singleton.2 rfl
  · exact List.forall_mem_nil _

theorem spans_ofItems (p : Position) (last : Option Lexeme) (items : List Item) :
    (ofItems p last items).Spans p.line := by
  induction items generalizing p last with
  | nil =>
    refine ⟨fun t mem => ?_, List.forall_mem_nil _, Nat.le_refl _⟩
    have here := line_lineEnd last p t mem
    exact ⟨Nat.le_of_eq here.symm, Nat.le_of_eq here⟩
  | cons item items ih =>
    have le := item.line_le_stop p
    have behind := fun last => (ih (item.stop p) last).mono le
    cases item with
    | blank c => exact behind last
    | newline => exact (behind none).withTokens (line_lineEnd last p)
    | comment text =>
      rw [ofItems]
      have ends := fun last => (ih ((Item.comment text).stop p) last).stop
      split
      · exact ((behind none).withTokens (line_lineEnd last p)).withComment rfl ⟨le, ends none⟩
      · exact (behind last).withComment rfl ⟨le, ends last⟩
    | word lexeme => exact (behind (some lexeme)).withTokens (List.forall_mem_singleton.2 rfl)

end Layout

/-! ## The last token -/

/-- The last of some lexemes, if there is one, is of the kind. -/
def LastIs (kind : Lexeme → Prop) (ws : List Lexeme) : Prop := ∀ w ∈ ws.getLast?, kind w

namespace LastIs

variable {kind : Lexeme → Prop} {us ws : List Lexeme}

theorem append (h : LastIs kind us) (k : LastIs kind ws) : LastIs kind (us ++ ws) := by
  intro w mem
  rw [List.getLast?_append] at mem
  cases last : ws.getLast? with
  | none =>
    rw [last] at mem
    exact h w mem
  | some v =>
    rw [last] at mem
    exact k w (by rw [last]; exact mem)

theorem singleton {w : Lexeme} (h : kind w) : LastIs kind [w] := by
  intro v mem
  cases mem
  exact h

/-- Of what is in front the last one does not matter, if something is behind. -/
theorem behind (us : List Lexeme) {w : Lexeme} (h : LastIs kind (w :: ws)) :
    LastIs kind (us ++ w :: ws) := by
  intro v mem
  rw [List.getLast?_append, List.getLast?_cons] at mem
  exact h v (by rw [List.getLast?_cons]; exact mem)

theorem of_append (h : LastIs kind (us ++ ws)) : LastIs kind ws := by
  intro w mem
  exact h w (by rw [List.getLast?_append, Option.mem_def.1 mem]; rfl)

end LastIs

/-- The lexeme does not end a statement. -/
def StaysOpen (w : Lexeme) : Prop := w.endsStatement = false

namespace Layout

/-- The semicolon at a line end stands behind what ends a statement. -/
theorem staysOpen_lineEnd (last : Option Lexeme) (p : Position) :
    LastIs StaysOpen (last.toList ++ (lineEnd last p).map Token.lexeme) := by
  unfold lineEnd
  split
  · exact .behind _ (.singleton rfl)
  · next stays =>
    intro w mem
    cases last with
    | none => cases mem
    | some v =>
      cases mem
      exact Bool.eq_false_iff.2 stays

/-- The last token of a layout does not end a statement: a semicolon would follow it. -/
theorem staysOpen_ofItems (p : Position) (last : Option Lexeme) (items : List Item) :
    LastIs StaysOpen (last.toList ++ (ofItems p last items).tokens.map Token.lexeme) := by
  induction items generalizing p last with
  | nil => exact staysOpen_lineEnd last p
  | cons item items ih =>
    have newLine : LastIs StaysOpen (last.toList ++ ((lineEnd last p).map Token.lexeme ++
        (ofItems (item.stop p) none items).tokens.map Token.lexeme)) := by
      rw [← List.append_assoc]
      exact (staysOpen_lineEnd last p).append (ih _ none)
    cases item with
    | blank c => exact ih _ last
    | newline =>
      rw [ofItems, withTokens, List.map_append]
      exact newLine
    | comment text =>
      rw [ofItems]
      split
      · rw [withComment, withTokens, List.map_append]
        exact newLine
      · exact ih _ last
    | word lexeme => exact (ih _ (some lexeme)).behind _

end Layout

end Typings
