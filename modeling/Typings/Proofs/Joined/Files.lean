import Typings.Proofs.Joined.Decls
import Typings.Proofs.Token.Scanned

/-!
# One file above another

Two files with an empty line between them, the second without a package clause, are one file with the
declarations of both (`File.parse_above`). The first is read with the second below it, and then the
second with the first above it; the comments of either stand apart from all of the other.
-/

namespace Typings

/-! ## What is around each of the two -/

theorem Token.down_zero : Token.down 0 = id := rfl

theorem Comment.down_zero : Comment.down 0 = id := rfl

namespace Surroundings

/-- Nothing but a layout that starts so many lines further down. -/
def below (m : Layout) (k : Nat) : Surroundings where
  shift := 0
  before := []
  after := m.tokens.map (Token.down k)
  stop := m.last.down k
  ownBefore := []
  ownAfter := (Cursor.ofLayout m).own.map (Comment.down k)
  trailingBefore := []
  trailingAfter := (Cursor.ofLayout m).trailing.map (Comment.down k)

/-- What surrounds a layout so many lines further down once the cursor has passed all above it. -/
def above (c : Cursor) (m : Layout) (k : Nat) : Surroundings where
  shift := k
  before := c.passed
  after := []
  stop := m.last.down k
  ownBefore := c.own
  ownAfter := []
  trailingBefore := c.trailing
  trailingAfter := []

end Surroundings

namespace Cursor

variable {l m : Layout} {c : Cursor} {k : Nat}

/-- The cursor over the upper of two sources is that over the source alone, put above the lower one. -/
theorem ofLayout_above (l m : Layout) :
    ofLayout (l.above m) = (ofLayout l).within (.below m (l.stop.line + 1)) := by
  have own : Comment.ownLine ∘ Comment.down (l.stop.line + 1) = Comment.ownLine := rfl
  have trailing : (fun m => !Comment.ownLine m) ∘ Comment.down (l.stop.line + 1) =
      fun m => !Comment.ownLine m := rfl
  simp only [ofLayout, ofTokens, Layout.above, Layout.down, within, Surroundings.below,
    Token.down_zero, Comment.down_zero, List.map_id, List.map_nil, List.append_nil, List.nil_append,
    List.filter_append, List.reverse_append, List.filter_map, List.map_reverse, own, trailing]
  rfl

/-- The lexemes of both sources stand one behind the other. -/
theorem ahead_ofLayout_above (l m : Layout) :
    (ofLayout (l.above m)).ahead = (ofLayout l).ahead ++ (ofLayout m).ahead := by
  have lexeme : Token.lexeme ∘ Token.down (l.stop.line + 1) = Token.lexeme := rfl
  simp only [ahead, ofLayout, ofTokens, Layout.above, Layout.down, List.map_append, List.map_map,
    lexeme]

theorem isEnded_ofLayout (l : Layout) : (ofLayout l).IsEnded := rfl

/-- Where the first of the two ends, the second begins. -/
theorem within_below (behind : c.rest = []) :
    c.within (.below m k) = (ofLayout m).within (.above c m k) := by
  simp only [ofLayout, ofTokens, within, Surroundings.below, Surroundings.above, behind,
    Token.down_zero, Comment.down_zero, List.map_id, List.map_nil, List.append_nil, List.nil_append]

theorem own_ofLayout : ∀ m ∈ (ofLayout l).own, m ∈ l.comments := fun _ mem =>
  (List.mem_filter.1 (List.mem_reverse.1 mem)).1

theorem trailing_ofLayout : ∀ m ∈ (ofLayout l).trailing, m ∈ l.comments := fun _ mem =>
  (List.mem_filter.1 mem).1

end Cursor

namespace Surroundings

variable {l m : Layout} {c : Cursor}

/-- The comments of the lower source are apart from the lines of the upper one. -/
theorem apart_below (h : m.Spans 1) {line k : Nat} (le : line ≤ k) : (below m k).Apart line := by
  constructor
  · intro x mem
    have mem : x ∈ (Cursor.ofLayout m).own.map (Comment.down k) ++ [] := mem
    rw [List.append_nil] at mem
    obtain ⟨y, own, rfl⟩ := List.mem_map.1 mem
    have here := h.comments y (Cursor.own_ofLayout y own)
    show y.endLine + k + 1 ≠ line
    omega
  · intro x mem
    have mem : x ∈ (Cursor.ofLayout m).trailing.map (Comment.down k) := mem
    obtain ⟨y, trailing, rfl⟩ := List.mem_map.1 mem
    have here := h.comments y (Cursor.trailing_ofLayout y trailing)
    show y.pos.line + k ≠ line
    omega

/-- The comments below are apart from the source above. -/
theorem clear_below (h : l.Spans 1) (h' : m.Spans 1) :
    (below m (l.stop.line + 1)).Clear (Cursor.ofLayout l) where
  ended := rfl
  passed := List.forall_mem_nil _
  rest t mem := apart_below h' (Nat.le_succ_of_le (h.tokens t mem).2)
  stop := apart_below h' (Nat.le_succ _)
  own x mem :=
    (apart_below h' (Nat.le_succ_of_le (h.comments x (Cursor.own_ofLayout x mem)).2.1)).own

/-- The comments of the upper source are apart from the lines of the lower one. -/
theorem apart_above (h : l.Spans 1) (reaches : (Cursor.ofLayout l).Reaches c) {line : Nat}
    (below : 1 ≤ line) : (above c m (l.stop.line + 1)).Apart (line + (l.stop.line + 1)) := by
  constructor
  · intro x mem
    have mem : x ∈ c.own := mem
    have here := h.comments x (Cursor.own_ofLayout x (reaches.own ▸ mem))
    omega
  · intro x mem
    have mem : x ∈ c.trailing ++ [] := mem
    rw [List.append_nil] at mem
    have here := h.comments x (Cursor.trailing_ofLayout x (reaches.trailing x mem))
    omega

/-- The comments above are apart from the source below. -/
theorem clear_above (h : l.Spans 1) (h' : m.Spans 1) (reaches : (Cursor.ofLayout l).Reaches c) :
    (above c m (l.stop.line + 1)).Clear (Cursor.ofLayout m) where
  ended := rfl
  passed := List.forall_mem_nil _
  rest t mem := apart_above h reaches (h'.tokens t mem).1
  stop := apart_above h reaches h'.stop
  own x mem := (apart_above h reaches (h'.comments x (Cursor.own_ofLayout x mem)).1).own

/-- Before a last semicolon, the cursor is inside. -/
theorem inside_of_lastIs {s : Surroundings} {c : Cursor} (some : c.rest ≠ [])
    (semi : LastIs (· = .op .semicolon) c.ahead) : s.Inside c := by
  rcases List.eq_nil_or_concat c.rest with nothing | ⟨ts, t, rest⟩
  · exact absurd nothing some
  · rw [List.concat_eq_append] at rest
    refine .inr ⟨ts, t, rest, semi t.lexeme ?_⟩
    rw [Cursor.ahead, rest, List.map_append]
    simp

end Surroundings

namespace Parser

variable {α : Type} {item : Parser α}

/-! ## Statements up to the end -/

/-- A statement ends with the semicolon of its line, if its source settles the line. -/
theorem lastIs_semicolon {ws : List Lexeme} (closes : LastIs Closes ws) (settled : LastIs StaysOpen ws) :
    LastIs (· = .op .semicolon) ws := by
  intro w mem
  rcases closes w mem with semi | ends
  · exact semi
  · rw [settled w mem] at ends
    cases ends

/-- Statements up to the end pass all tokens, and the last one is where a statement ends. -/
theorem itemsUntil_eof (h : item.IsStatement) {n : Nat} {c c' : Cursor} {xs : List α}
    (run : itemsUntil .eof item n c = .ok (xs, c')) (ended : c.IsEnded)
    (noEnd : ∀ w ∈ c.ahead, w.IsScanned) : c.Reaches c' ∧ c'.rest = [] ∧ LastIs Closes c.ahead := by
  induction n generalizing c xs with
  | zero => exact absurd run fail_ne_ok
  | succ n ih =>
    have step : ∀ (us : List Lexeme) {c₁ : Cursor} {w : Lexeme} {ys : List α}, c.Reaches c₁ →
        c.ahead = us ++ w :: c₁.ahead → Closes w → itemsUntil .eof item n c₁ = .ok (ys, c') →
        c.Reaches c' ∧ c'.rest = [] ∧ LastIs Closes c.ahead := by
      intro us c₁ w ys reaches tokens closes run
      have noEnd₁ : ∀ w ∈ c₁.ahead, w.IsScanned := fun v mem =>
        noEnd v (tokens ▸ List.mem_append_right _ (List.mem_cons_of_mem _ mem))
      obtain ⟨reaches', behind, last⟩ := ih run (reaches.isEnded ended) noEnd₁
      refine ⟨reaches.trans reaches', behind, ?_⟩
      rw [tokens]
      exact .behind _ ((LastIs.singleton closes).append last)
    rw [itemsUntil, isAt_bind] at run
    split at run
    · next here =>
      obtain ⟨-, rfl⟩ := pure_eq_ok.1 run
      cases rest : c.rest with
      | nil =>
        refine ⟨.refl c, rfl, ?_⟩
        rw [Cursor.ahead, rest]
        exact fun w last => absurd last (by simp)
      | cons t ts =>
        rw [Cursor.current, rest] at here
        have scanned := noEnd t.lexeme (by rw [Cursor.ahead, rest]; exact .head _)
        rw [show t.lexeme = .eof from of_decide_eq_true here] at scanned
        exact scanned.elim
    · rw [isAt_bind] at run
      split at run
      · next semi =>
        rw [advance_bind] at run
        have passes := Cursor.passes_advance ended (of_decide_eq_true semi) (by simp)
        exact step [] (.pass c 1) passes.ahead_eq (.inl rfl) run
      · obtain ⟨x, c₁, first, further⟩ := bind_eq_ok.1 run
        obtain ⟨ys, c₂, others, last⟩ := bind_eq_ok.1 further
        obtain ⟨-, rfl⟩ := pure_eq_ok.1 last
        obtain ⟨us, t, tokens, closes⟩ := h.closes ended first
        have lexemes : c.ahead = us.map Token.lexeme ++ t.lexeme :: c₁.ahead := by
          rw [Cursor.ahead, tokens, List.map_append]
          rfl
        exact step _ (h.forward first) lexemes closes others

/-- More rounds than needed change no list. -/
theorem itemsUntil_mono {close : Lexeme} {n m : Nat} {c c' : Cursor} {xs : List α} (le : n ≤ m)
    (run : itemsUntil close item n c = .ok (xs, c')) : itemsUntil close item m c = .ok (xs, c') := by
  induction n generalizing m c xs with
  | zero => exact absurd run fail_ne_ok
  | succ n ih =>
    obtain ⟨m, rfl⟩ : ∃ k, m = k + 1 := ⟨m - 1, by omega⟩
    have le : n ≤ m := Nat.le_of_succ_le_succ le
    rw [itemsUntil, isAt_bind] at run ⊢
    split at run
    · next here => rwa [if_pos here]
    · next here =>
      rw [if_neg here, isAt_bind]
      rw [isAt_bind] at run
      split at run
      · next semi =>
        rw [if_pos semi, advance_bind]
        exact ih le run
      · next semi =>
        rw [if_neg semi]
        obtain ⟨x, c₁, first, further⟩ := bind_eq_ok.1 run
        obtain ⟨ys, c₂, others, last⟩ := bind_eq_ok.1 further
        obtain ⟨rfl, rfl⟩ := pure_eq_ok.1 last
        exact bind_eq_ok.2 ⟨x, c₁, first, bind_eq_ok.2 ⟨ys, c₂, ih le others, rfl⟩⟩

/-- Statements up to the end go on with those behind them. -/
theorem itemsUntil_within (h : item.IsStatement) {s : Surroundings} {n m k : Nat} {c c' c'' : Cursor}
    {xs ys : List α} (run : itemsUntil .eof item n c = .ok (xs, c')) (clear : s.Clear c)
    (inside : c.rest ≠ [] → s.Inside c)
    (more : itemsUntil .eof item m (c'.within s) = .ok (ys, c'')) (le : n + m ≤ k + 1) :
    itemsUntil .eof item k (c.within s) = .ok (xs ++ ys, c'') := by
  have pos : 0 < m := by
    cases m with
    | zero => exact absurd more fail_ne_ok
    | succ => exact Nat.succ_pos _
  induction n generalizing k c xs with
  | zero => exact absurd run fail_ne_ok
  | succ n ih =>
    rw [itemsUntil, isAt_bind] at run
    split at run
    · obtain ⟨rfl, rfl⟩ := pure_eq_ok.1 run
      exact itemsUntil_mono (by omega) more
    next open_ =>
    have some : c.rest ≠ [] := by
      intro nothing
      rw [Cursor.current, nothing] at open_
      exact open_ (decide_eq_true clear.ended)
    have further : ∀ {c₁ : Cursor}, c.Reaches c₁ → s.Clear c₁ ∧ (c₁.rest ≠ [] → s.Inside c₁) :=
      fun reaches => ⟨clear.forward reaches, (inside some).forward reaches⟩
    obtain ⟨k, rfl⟩ : ∃ j, k = j + 1 := ⟨k - 1, by omega⟩
    have le : n + m ≤ k + 1 := by omega
    rw [itemsUntil, isAt_bind, Cursor.current_lexeme_within (inside some), if_neg open_, isAt_bind,
      Cursor.current_lexeme_within (inside some)]
    rw [isAt_bind] at run
    split at run
    · next semi =>
      rw [if_pos semi, advance_bind, Cursor.advance_within (inside some)]
      obtain ⟨clear₁, inside₁⟩ := further (.pass c 1)
      exact ih run clear₁ inside₁ le
    · next semi =>
      rw [if_neg semi]
      obtain ⟨x, c₁, first, rest⟩ := bind_eq_ok.1 run
      obtain ⟨zs, c₂, others, last⟩ := bind_eq_ok.1 rest
      obtain ⟨rfl, rfl⟩ := pure_eq_ok.1 last
      obtain ⟨clear₁, inside₁⟩ := further (h.forward first)
      have first' := h.within first clear (inside some)
      have others' := ih others clear₁ inside₁ le
      exact bind_eq_ok.2 ⟨x, _, first', bind_eq_ok.2 ⟨zs ++ ys, _, others', rfl⟩⟩

/-! ## The package clause -/

/-- A semicolon is passed like those behind it. -/
theorem passSemis_of_semicolon {c : Cursor} {t : Token} {ts : List Token} (rest : c.rest = t :: ts)
    (semi : t.lexeme = .op .semicolon) : c.passSemis = c.advance.passSemis := by
  have same : decide (t.lexeme = .op .semicolon) = true := decide_eq_true semi
  simp only [Cursor.passSemis, Cursor.advance, Cursor.pass, rest, List.takeWhile_cons, same, if_true,
    List.length_cons, List.take_succ_cons, List.drop_succ_cons, List.take_zero, List.drop_zero,
    List.reverse_cons, List.reverse_nil, List.nil_append, List.append_assoc]

/-- Where there is no semicolon, none is passed. -/
theorem passSemis_of_other {c : Cursor} (other : ∀ t ∈ c.rest.head?, t.lexeme ≠ .op .semicolon) :
    c.passSemis = c := by
  have none : c.rest.takeWhile (fun t => t.lexeme = .op .semicolon) = [] := by
    cases rest : c.rest with
    | nil => rfl
    | cons t ts =>
      exact List.takeWhile_cons_of_neg fun semi =>
        other t (by rw [rest]; rfl) (of_decide_eq_true semi)
  rw [Cursor.passSemis, none]
  rfl

theorem passSemis_of_current {c : Cursor} (other : c.current.lexeme ≠ .op .semicolon) :
    c.passSemis = c := by
  refine passSemis_of_other fun t here semi => other ?_
  rw [Cursor.current, List.headD_eq_head?_getD, Option.mem_def.1 here, Option.getD_some, semi]

/-- The declarations of a file. -/
def declarations : Parser (List (List Decl)) := bounded (itemsUntil .eof declaration)

/-- Semicolons in front of the declarations do not matter. -/
theorem declarations_passSemis (c : Cursor) : declarations c.passSemis = declarations c := by
  generalize tokens : c.rest = ts
  induction ts generalizing c with
  | nil => rw [passSemis_of_other (by rw [tokens]; exact nofun)]
  | cons t ts ih =>
    by_cases semi : t.lexeme = .op .semicolon
    · have here : c.current.lexeme = .op .semicolon := by rw [Cursor.current, tokens]; exact semi
      have behind : c.advance.rest = ts := by rw [Cursor.advance, Cursor.pass, tokens]; rfl
      have step : declarations c = declarations c.advance := by
        show itemsUntil .eof declaration (c.rest.length + 1) c =
          itemsUntil .eof declaration (c.advance.rest.length + 1) c.advance
        rw [tokens, behind, itemsUntil, isAt_bind, here, if_neg (by decide), isAt_bind, here]
        rfl
      rw [passSemis_of_semicolon tokens semi, ih c.advance behind, step]
    · rw [passSemis_of_other]
      rw [tokens]
      rintro v ⟨⟩
      exact semi

/-- The first of the lexemes that is no semicolon is the word of a package clause. -/
def opensPackage (ws : List Lexeme) : Prop :=
  (ws.dropWhile fun w => w = .op .semicolon).head? = some (.keyword .packageKw)

theorem opensPackage_append {us ws : List Lexeme} (h : opensPackage (us ++ ws)) :
    opensPackage us ∨ opensPackage ws := by
  unfold opensPackage at *
  rw [List.dropWhile_append] at h
  split at h
  · exact .inr h
  · next some =>
    obtain ⟨w, ws, front⟩ := List.exists_cons_of_ne_nil fun nothing => some (List.isEmpty_iff.2 nothing)
    rw [front] at h ⊢
    exact .inl h

/-- Behind its semicolons, a source begins with `package` exactly if its lexemes say so. -/
theorem current_passSemis {c : Cursor} (ended : c.IsEnded) :
    c.passSemis.current.lexeme = .keyword .packageKw ↔ opensPackage c.ahead := by
  generalize tokens : c.rest = ts
  induction ts generalizing c with
  | nil =>
    rw [passSemis_of_other (by rw [tokens]; exact nofun), Cursor.current, Cursor.ahead, tokens,
      List.headD_nil, show c.stop.lexeme = .eof from ended]
    constructor
    · intro h
      cases h
    · intro h
      cases h
  | cons t ts ih =>
    have ahead : c.ahead = t.lexeme :: ts.map Token.lexeme := by rw [Cursor.ahead, tokens]; rfl
    by_cases semi : t.lexeme = .op .semicolon
    · have behind : c.advance.rest = ts := by rw [Cursor.advance, Cursor.pass, tokens]; rfl
      rw [passSemis_of_semicolon tokens semi, ih (c := c.advance) ended behind, ahead, semi,
        Cursor.ahead, behind]
      exact Iff.rfl
    · rw [passSemis_of_other, Cursor.current, tokens, ahead, opensPackage,
        List.dropWhile_cons_of_neg (by simpa using semi)]
      · exact (Option.some_inj).symm
      · rw [tokens]
        rintro v ⟨⟩
        exact semi

/-- The clause before the end of its statement. -/
def packageHead : Parser String := do
  let _ ← advance
  ident

/-- The head of a file is a statement like any other. -/
theorem packageHead_isStatement : (statementOf packageHead id).IsStatement :=
  isStatement_of (.advance fun _ _ _ => .ident) (.advance fun _ => .ident) id

/-- A source that opens with `package` is read as that and declarations. -/
theorem file_of_opensPackage {c : Cursor} (ended : c.IsEnded) (h : opensPackage c.ahead) :
    file c = (do
      let package ← statementOf packageHead id
      let decls ← declarations
      pure ⟨package, decls.flatten⟩ : Parser File) c.passSemis := by
  have here := (current_passSemis ended).2 h
  rw [file, passSemis_bind]
  simp only [packageClause, statementOf, packageHead, declarations, bind_assoc, ite_bind, isAt_bind,
    here, decide_true, if_true]
  rfl

/-- A source that does not is read as declarations alone. -/
theorem file_of_not_opensPackage {c : Cursor} (ended : c.IsEnded) (h : ¬opensPackage c.ahead) :
    file c = (do
      let decls ← declarations
      pure ⟨"", decls.flatten⟩ : Parser File) c := by
  have here : ¬c.passSemis.current.lexeme = .keyword .packageKw :=
    fun opens => h ((current_passSemis ended).1 opens)
  rw [file, passSemis_bind]
  simp only [packageClause, bind_assoc, ite_bind, pure_bind, isAt_bind, here, decide_false]
  show (declarations c.passSemis >>= _) = (declarations c >>= _)
  rw [declarations_passSemis]

/-! ## Declarations above declarations -/

/-- What a parser makes of a source is what it makes of the cursor over its layout. -/
theorem run_eq_ok {p : Parser α} {source : String} {x : α} :
    p.run source = .ok x ↔
      ∃ l c, Layout.ofSource source = .ok l ∧ p (.ofLayout l) = .ok (x, c) := by
  constructor
  · intro h
    unfold run at h
    split at h
    · cases h
    next l scanned =>
    split at h
    · cases h
    · next y c parsed =>
      cases h
      exact ⟨l, c, scanned, parsed⟩
  · rintro ⟨l, c, scanned, parsed⟩
    rw [run, scanned]
    dsimp only
    rw [parsed]

section above

variable {s t : String} {l m : Layout} {c c' d' : Cursor} {xs ys : List (List Decl)}

/-- What is ahead of a cursor that is reached ends as the source does, and is scanned. -/
theorem lexemes_of_reaches (first : Layout.ofSource s = .ok l) (reaches : (Cursor.ofLayout l).Reaches c) :
    LastIs StaysOpen c.ahead ∧ ∀ w ∈ c.ahead, w.IsScanned := by
  obtain ⟨us, rest, -⟩ := reaches.tokens
  have tokens : l.tokens.map Token.lexeme = us.map Token.lexeme ++ c.ahead := by
    rw [show l.tokens = us ++ c.rest from rest, List.map_append]
    rfl
  constructor
  · have settled := Layout.staysOpen_ofItems .start none (scan s.toList).1
    rw [← (Layout.ofSource_eq_ok.1 first).2, Option.toList_none, List.nil_append, tokens] at settled
    exact settled.of_append
  · intro w mem
    obtain ⟨t, token, rfl⟩ := List.mem_map.1 (tokens ▸ List.mem_append_right _ mem)
    exact Layout.isScanned_of_mem first token

/-- A scanned source spans the lines from the first one on. -/
theorem spans_ofSource (first : Layout.ofSource s = .ok l) : l.Spans 1 := by
  rw [(Layout.ofSource_eq_ok.1 first).2]
  exact Layout.spans_ofItems .start none _

/-- The declarations of one source and of another below it. -/
theorem declarations_above (first : Layout.ofSource s = .ok l) (second : Layout.ofSource t = .ok m)
    (reaches : (Cursor.ofLayout l).Reaches c) (run : declarations c = .ok (xs, c'))
    (run' : declarations (.ofLayout m) = .ok (ys, d')) :
    ∃ e, declarations (c.within (.below m (l.stop.line + 1))) = .ok (xs ++ ys, e) := by
  obtain ⟨settled, noEnd⟩ := lexemes_of_reaches first reaches
  obtain ⟨further, behind, closes⟩ :=
    itemsUntil_eof declaration_isStatement run (reaches.isEnded rfl) noEnd
  have noEnd' := (lexemes_of_reaches second (.refl _)).2
  obtain ⟨-, behind', -⟩ := itemsUntil_eof declaration_isStatement run' rfl noEnd'
  have spans := spans_ofSource first
  have spans' := spans_ofSource second
  have clear := (Surroundings.clear_below spans spans').forward reaches
  have clear' := Surroundings.clear_above spans spans' (reaches.trans further)
  have inside := fun some => Surroundings.inside_of_lastIs (s := .below m (l.stop.line + 1))
    some (lastIs_semicolon closes settled)
  have nothing : itemsUntil .eof declaration 1 (d'.within (.above c' m (l.stop.line + 1))) =
      .ok ([], d'.within (.above c' m (l.stop.line + 1))) := by
    have here : (d'.within (.above c' m (l.stop.line + 1))).current.lexeme = .eof := by
      rw [Cursor.current, Cursor.within, behind']
      rfl
    rw [itemsUntil, isAt_bind, here]
    rfl
  have more := itemsUntil_within declaration_isStatement run' clear' (fun _ => .inl ⟨rfl, rfl⟩)
    nothing (Nat.le_refl _)
  rw [← Cursor.within_below behind] at more
  have le : c.rest.length + 1 + ((Cursor.ofLayout m).rest.length + 1) ≤
      (c.within (.below m (l.stop.line + 1))).rest.length + 1 + 1 := by
    have below : (Surroundings.below m (l.stop.line + 1)).after.length =
        (Cursor.ofLayout m).rest.length := List.length_map _
    rw [Cursor.within, List.length_append, List.length_map, below]
    omega
  rw [← List.append_nil ys]
  exact ⟨_, itemsUntil_within declaration_isStatement run clear inside more le⟩

/-- The name in a package clause is not empty. -/
theorem package_ne_empty {package : String} (first : Layout.ofSource s = .ok l)
    (reaches : (Cursor.ofLayout l).Reaches c)
    (run : statementOf packageHead id c = .ok (package, c')) : package ≠ "" := by
  obtain ⟨name, c₁, head, last⟩ := bind_eq_ok.1 run
  obtain ⟨_, c₂, -, last⟩ := bind_eq_ok.1 last
  obtain ⟨rfl, -⟩ := pure_eq_ok.1 last
  rw [packageHead, advance_bind] at head
  have passes : c.advance.Passes [.ident name] c₁ :=
    passes_of_ident (reaches.isEnded (Cursor.isEnded_ofLayout l)) head
  have named : .ident name ∈ c.advance.ahead := by
    rw [passes.ahead_eq]
    exact .head _
  obtain ⟨x, xs, spelled, -⟩ := (lexemes_of_reaches first (reaches.trans (.pass c 1))).2 _ named
  rintro rfl
  cases spelled

/-- A file without a package clause is its declarations. -/
theorem file_of_plain {g : File} (first : Layout.ofSource s = .ok l)
    (run : file (.ofLayout l) = .ok (g, c')) (plain : g.package = "") :
    ¬opensPackage (Cursor.ofLayout l).ahead ∧
      ∃ xs, declarations (.ofLayout l) = .ok (xs, c') ∧ g.decls = xs.flatten := by
  by_cases opens : opensPackage (Cursor.ofLayout l).ahead
  · rw [file_of_opensPackage (Cursor.isEnded_ofLayout _) opens] at run
    obtain ⟨package, c₁, clause, rest⟩ := bind_eq_ok.1 run
    obtain ⟨xs, c₂, -, last⟩ := bind_eq_ok.1 rest
    obtain ⟨rfl, -⟩ := pure_eq_ok.1 last
    exact absurd plain (package_ne_empty first (.passSemis _) clause)
  · rw [file_of_not_opensPackage (Cursor.isEnded_ofLayout _) opens] at run
    obtain ⟨xs, c₁, decls, last⟩ := bind_eq_ok.1 run
    obtain ⟨rfl, rfl⟩ := pure_eq_ok.1 last
    exact ⟨opens, xs, decls, rfl⟩

/-- The semicolons in front of a first source and its package clause, with another below it. -/
theorem package_above {package : String} (first : Layout.ofSource s = .ok l)
    (second : Layout.ofSource t = .ok m) (opens : opensPackage (Cursor.ofLayout l).ahead)
    (clause : statementOf packageHead id (Cursor.ofLayout l).passSemis = .ok (package, c))
    (run : declarations c = .ok (xs, c')) :
    opensPackage (Cursor.ofLayout (l.above m)).ahead ∧
      statementOf packageHead id (Cursor.ofLayout (l.above m)).passSemis =
        .ok (package, c.within (.below m (l.stop.line + 1))) := by
  have ended := Cursor.isEnded_ofLayout l
  have semis := Cursor.Reaches.passSemis (.ofLayout l)
  have reaches := semis.trans (packageHead_isStatement.forward clause)
  obtain ⟨us, w, tokens, ends⟩ := packageHead_isStatement.closes (semis.isEnded ended) clause
  have last : LastIs Closes (Cursor.ofLayout l).passSemis.ahead := by
    obtain ⟨-, -, closes⟩ := itemsUntil_eof declaration_isStatement run (reaches.isEnded ended)
      (lexemes_of_reaches first reaches).2
    rw [Cursor.ahead, tokens, List.map_append, List.map_cons]
    exact .behind _ ((LastIs.singleton ends).append closes)
  have settled := (lexemes_of_reaches first semis).1
  have clear := Surroundings.clear_below (spans_ofSource first) (spans_ofSource second)
  have inside : (Surroundings.below m (l.stop.line + 1)).Inside (Cursor.ofLayout l).passSemis := by
    refine Surroundings.inside_of_lastIs ?_ (lastIs_semicolon last settled)
    rw [tokens]
    exact List.append_ne_nil_of_right_ne_nil _ (List.cons_ne_nil _ _)
  have moved : (Cursor.ofLayout (l.above m)).passSemis =
      (Cursor.ofLayout l).passSemis.within (.below m (l.stop.line + 1)) := by
    have run := Framed.passSemis.frame (c := .ofLayout l) rfl clear inside
      fun same => absurd same Bool.false_ne_true
    rw [← Cursor.ofLayout_above] at run
    exact congrArg Prod.snd (Except.ok.inj run)
  constructor
  · rw [← current_passSemis (Cursor.isEnded_ofLayout _), moved, Cursor.current_lexeme_within inside]
    exact (current_passSemis ended).2 opens
  · rw [moved]
    exact packageHead_isStatement.within clause (clear.forward semis) inside

end above

end Parser

open Typings.Parser in
/-- Two files with an empty line between them, the second without a package clause, are one file: the
package is that of the first, and its declarations are followed by those of the second. -/
theorem File.parse_above {s t : String} {f g : File} (first : File.parse s = .ok f)
    (second : File.parse t = .ok g) (plain : g.package = "") :
    File.parse (s ++ "\n\n" ++ t) = .ok ⟨f.package, f.decls ++ g.decls⟩ := by
  obtain ⟨l, c, scanned, run⟩ := run_eq_ok.1 first
  obtain ⟨m, d, scanned', run'⟩ := run_eq_ok.1 second
  obtain ⟨opens', ys, decls', value'⟩ := file_of_plain scanned' run' plain
  refine run_eq_ok.2 ?_
  by_cases opens : opensPackage (Cursor.ofLayout l).ahead
  · rw [file_of_opensPackage (Cursor.isEnded_ofLayout _) opens] at run
    obtain ⟨package, c₁, clause, rest⟩ := bind_eq_ok.1 run
    obtain ⟨xs, c₂, decls, last⟩ := bind_eq_ok.1 rest
    obtain ⟨rfl, rfl⟩ := pure_eq_ok.1 last
    obtain ⟨opensBoth, clauseBoth⟩ := package_above scanned scanned' opens clause decls
    have reaches := (Cursor.Reaches.passSemis (.ofLayout l)).trans (packageHead_isStatement.forward clause)
    obtain ⟨e, both⟩ := declarations_above scanned scanned' reaches decls decls'
    refine ⟨_, e, Layout.ofSource_above scanned scanned', ?_⟩
    rw [file_of_opensPackage (Cursor.isEnded_ofLayout _) opensBoth]
    refine bind_eq_ok.2 ⟨package, _, clauseBoth, bind_eq_ok.2 ⟨_, e, both, ?_⟩⟩
    rw [value', List.flatten_append]
    rfl
  · rw [file_of_not_opensPackage (Cursor.isEnded_ofLayout _) opens] at run
    obtain ⟨xs, c₁, decls, last⟩ := bind_eq_ok.1 run
    obtain ⟨rfl, rfl⟩ := pure_eq_ok.1 last
    obtain ⟨e, both⟩ := declarations_above scanned scanned' (.refl _) decls decls'
    have opensBoth : ¬opensPackage (Cursor.ofLayout (l.above m)).ahead := by
      rw [Cursor.ahead_ofLayout_above]
      exact fun either => (opensPackage_append either).elim opens opens'
    refine ⟨_, e, Layout.ofSource_above scanned scanned', ?_⟩
    rw [file_of_not_opensPackage (Cursor.isEnded_ofLayout _) opensBoth, Cursor.ofLayout_above]
    refine bind_eq_ok.2 ⟨_, e, both, ?_⟩
    rw [value', List.flatten_append]
    rfl

/-- A comment at the end of the first source and another at the start of the second. -/
theorem File.parse_above_comments :
    ∃ f g, File.parse "package shop\n\ntype Price int // in cents" = .ok f ∧
      File.parse "// What is bought.\ntype Cart []Price" = .ok g ∧
      f.package = "shop" ∧ f.decls.map Decl.name? = [some "Price"] ∧
      g.package = "" ∧ g.decls.map Decl.name? = [some "Cart"] ∧
      File.parse ("package shop\n\ntype Price int // in cents" ++ "\n\n" ++
        "// What is bought.\ntype Cart []Price") = .ok ⟨f.package, f.decls ++ g.decls⟩ := by
  have summary : (File.parse "package shop\n\ntype Price int // in cents").toOption.map
      (fun f => (f.package, f.decls.map Decl.name?)) = some ("shop", [some "Price"]) := by
    decide +kernel
  have summary' : (File.parse "// What is bought.\ntype Cart []Price").toOption.map
      (fun f => (f.package, f.decls.map Decl.name?)) = some ("", [some "Cart"]) := by
    decide +kernel
  obtain ⟨f, first, summary⟩ := exists_of_toOption_map summary
  obtain ⟨g, second, summary'⟩ := exists_of_toOption_map summary'
  obtain ⟨package, names⟩ := Prod.mk.inj summary
  obtain ⟨plain, names'⟩ := Prod.mk.inj summary'
  exact ⟨f, g, first, second, package, names, plain, names', File.parse_above first second plain⟩

end Typings
