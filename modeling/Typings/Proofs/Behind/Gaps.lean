import Typings.Proofs.Attached.Runs

/-!
# The gap behind a token

Behind a token that ends a statement, the layout goes on in one of two ways (`Layout.Gap`): either a
comment comes before the line ends and before anything else is written, or none does. A cursor there
finds that comment exactly if neither the token nor the comment spans lines
(`Layout.find?_trails_eq`): it looks on the line where the token starts, and where the comment spans
lines, the semicolon of the line end stands at its own place, so that it is not before it.
-/

namespace Typings

instance (p q : Position) : Decidable (p.Precedes q) :=
  inferInstanceAs (Decidable (p.line < q.line ∨ p.line = q.line ∧ p.col < q.col))

/-- The first comment that starts on the line on which a token ends, behind the token and before all that
is written behind it. -/
def Layout.noteBehind (layout : Layout) (t : Token) : Option Comment :=
  layout.comments.find? fun m => m.pos.line = t.endLine ∧ t.pos.Precedes m.pos ∧
    ∀ u ∈ layout.tokens, u.auto = false → t.pos.Precedes u.pos → m.pos.Precedes u.pos

theorem Item.not_stop_precedes (item : Item) (p : Position) : ¬(item.stop p).Precedes p := by
  by_cases some : item.text = []
  · have stays : item.stop p = p := by
      unfold stop
      rw [some]
      split <;> rfl
    rw [stays]
    exact fun h => h.ne rfl
  · intro h
    exact (h.trans (precedes_stop p some)).ne rfl

namespace Position

variable {p q r : Position}

theorem not_precedes_self (p : Position) : ¬p.Precedes p := fun h => h.ne rfl

theorem Precedes.trans_not (h : p.Precedes q) (k : ¬r.Precedes q) : p.Precedes r := by
  unfold Precedes at *
  omega

theorem not_precedes_trans (h : ¬q.Precedes p) (k : ¬r.Precedes q) : ¬r.Precedes p := by
  unfold Precedes at *
  omega

end Position

namespace Layout

/-! ## In order -/

/-- Nothing stands before the place where the items start. -/
structure From (layout : Layout) (p : Position) : Prop where
  tokens : ∀ t ∈ layout.tokens, ¬t.pos.Precedes p
  comments : ∀ m ∈ layout.comments, ¬m.pos.Precedes p
  stop : ¬layout.stop.Precedes p

/-- Tokens and comments from a place on are also from every place before it on. -/
theorem From.back {layout : Layout} {p q : Position} (h : layout.From q) (le : ¬q.Precedes p) :
    layout.From p where
  tokens t mem := Position.not_precedes_trans le (h.tokens t mem)
  comments m mem := Position.not_precedes_trans le (h.comments m mem)
  stop := Position.not_precedes_trans le h.stop

/-- The token that comes next, if it is the one that ends the text. -/
theorem From.head {layout : Layout} {p : Position} (h : layout.From p) :
    ¬(layout.tokens.headD layout.last).pos.Precedes p := by
  cases tokens : layout.tokens with
  | nil => exact h.stop
  | cons t ts => exact h.tokens t (tokens ▸ List.mem_cons_self)

/-- The semicolon of a line end stands where the line ends. -/
theorem pos_lineEnd {last : Option Lexeme} {p : Position} {t : Token} (mem : t ∈ lineEnd last p) :
    t.pos = p ∧ t.auto = true := by
  unfold lineEnd at mem
  split at mem
  · rw [List.mem_singleton.1 mem]
    exact ⟨rfl, rfl⟩
  · cases mem

/-- What is laid out from a place on stands at it or behind it. -/
theorem from_ofItems (p : Position) (last : Option Lexeme) (items : List Item) :
    (ofItems p last items).From p := by
  induction items generalizing p last with
  | nil =>
    refine ⟨fun t mem => ?_, List.forall_mem_nil _, Position.not_precedes_self p⟩
    rw [(pos_lineEnd mem).1]
    exact Position.not_precedes_self p
  | cons item items ih =>
    have here := Position.not_precedes_self p
    have behind := fun last => (ih (item.stop p) last).back (item.not_stop_precedes p)
    have lined : ∀ t ∈ lineEnd last p, ¬t.pos.Precedes p := by
      intro t mem
      rw [(pos_lineEnd mem).1]
      exact here
    cases item with
    | blank c => exact behind last
    | newline => exact ⟨List.forall_mem_append.2 ⟨lined, (behind none).tokens⟩,
        (behind none).comments, (behind none).stop⟩
    | comment text =>
      rw [ofItems]
      split
      · exact ⟨List.forall_mem_append.2 ⟨lined, (behind none).tokens⟩,
          List.forall_mem_cons.2 ⟨here, (behind none).comments⟩, (behind none).stop⟩
      · exact ⟨(behind last).tokens, List.forall_mem_cons.2 ⟨here, (behind last).comments⟩,
          (behind last).stop⟩
    | word lexeme =>
      exact ⟨List.forall_mem_cons.2 ⟨here, (behind (some lexeme)).tokens⟩,
        (behind (some lexeme)).comments, (behind (some lexeme)).stop⟩

/-- The tokens stand one behind the other. -/
theorem pairwise_tokens_ofItems {items : List Item} (visible : ∀ item ∈ items, item.text ≠ [])
    (p : Position) (last : Option Lexeme) :
    (ofItems p last items).tokens.Pairwise fun t u => t.pos.Precedes u.pos := by
  induction items generalizing p last with
  | nil =>
    show (lineEnd last p).Pairwise _
    unfold lineEnd
    split
    · exact List.pairwise_singleton _ _
    · exact .nil
  | cons item items ih =>
    obtain ⟨here, visible'⟩ := List.forall_mem_cons.1 visible
    have further : ∀ last, ∀ u ∈ (ofItems (item.stop p) last items).tokens, p.Precedes u.pos :=
      fun last u mem => (Item.precedes_stop p here).trans_not ((from_ofItems _ last items).tokens u mem)
    have lined : (lineEnd last p ++ (ofItems (item.stop p) none items).tokens).Pairwise
        fun t u => t.pos.Precedes u.pos := by
      refine List.pairwise_append.2 ⟨?_, ih visible' _ _, fun t mem u mem' => ?_⟩
      · unfold lineEnd
        split
        · exact List.pairwise_singleton _ _
        · exact .nil
      · rw [(pos_lineEnd mem).1]
        exact further none u mem'
    cases item with
    | blank c => exact ih visible' _ _
    | newline => exact lined
    | comment text =>
      rw [ofItems]
      split
      · exact lined
      · exact ih visible' _ _
    | word lexeme => exact List.pairwise_cons.2 ⟨further (some lexeme), ih visible' _ _⟩

/-- The tokens of a source stand one behind another. -/
theorem pairwise_tokens {source : String} {layout : Layout} (h : Layout.ofSource source = .ok layout) :
    layout.tokens.Pairwise fun t u => t.pos.Precedes u.pos := by
  obtain ⟨rfl, -⟩ := ofItems_scan_of_ofSource h
  exact pairwise_tokens_ofItems (fun item mem => Item.text_ne_nil_of_mem_scan mem) _ _

/-! ## Behind a token -/

/-- The layout goes on behind a token as another one does, before which all else stands. -/
structure GoesOn (layout : Layout) (us : List Token) (t : Token) (ts : List Token) (tail : Layout) :
    Prop where
  tokens : tail.tokens = ts
  stop : tail.stop = layout.stop
  comments : ∃ ms, layout.comments = ms ++ tail.comments ∧ ∀ m ∈ ms, m.pos.Precedes t.pos
  before : ∀ u ∈ us, ¬t.pos.Precedes u.pos

/-- A token that is written is behind the semicolons of line ends in front. -/
theorem exists_of_append_eq {front us ts rest : List Token} {t : Token}
    (autos : ∀ u ∈ front, u.auto = true) (written : t.auto = false)
    (same : front ++ rest = us ++ t :: ts) : ∃ us', us = front ++ us' ∧ rest = us' ++ t :: ts := by
  induction front generalizing us with
  | nil => exact ⟨us, rfl, same⟩
  | cons u front ih =>
    obtain ⟨auto, autos⟩ := List.forall_mem_cons.1 autos
    cases us with
    | nil =>
      rw [(List.cons.inj same).1, written] at auto
      cases auto
    | cons v vs =>
      obtain ⟨rfl, behind⟩ := List.cons.inj same
      obtain ⟨us', rfl, rest⟩ := ih autos behind
      exact ⟨us', rfl, rest⟩

/-- An item in front, with the tokens and the comments that it brings about. -/
theorem GoesOn.cons {layout tail : Layout} {us front : List Token} {ms : List Comment}
    {t : Token} {ts : List Token} {p q : Position} {last : Option Lexeme} {items : List Item}
    (h : (ofItems q last items).GoesOn us t ts tail)
    (tokens : (ofItems q last items).tokens = us ++ t :: ts) (on : p.Precedes q)
    (here : ∀ u ∈ front, u.pos = p) (here' : ∀ m ∈ ms, m.pos = p)
    (same : layout = ⟨front ++ (ofItems q last items).tokens, ms ++ (ofItems q last items).comments,
      (ofItems q last items).stop⟩) : layout.GoesOn (front ++ us) t ts tail := by
  have mem : t ∈ (ofItems q last items).tokens := by
    rw [tokens]
    exact List.mem_append_right us List.mem_cons_self
  have less : p.Precedes t.pos := on.trans_not ((from_ofItems q last items).tokens t mem)
  obtain ⟨ns, comments, before⟩ := h.comments
  rw [same]
  refine ⟨h.tokens, h.stop, ⟨ms ++ ns, ?_, ?_⟩, ?_⟩
  · rw [List.append_assoc, ← comments]
  · refine List.forall_mem_append.2 ⟨fun m mem => ?_, before⟩
    rw [here' m mem]
    exact less
  · refine List.forall_mem_append.2 ⟨fun u mem => ?_, h.before⟩
    rw [here u mem]
    exact fun more => (less.trans more).ne rfl

/-- Behind a token that is written, the layout goes on as that of the items behind its word. -/
theorem exists_goesOn {us ts : List Token} {t : Token} {p : Position} {last : Option Lexeme}
    {items : List Item} (visible : ∀ item ∈ items, item.text ≠ [])
    (tokens : (ofItems p last items).tokens = us ++ t :: ts) (written : t.auto = false) :
    ∃ back, (∀ item ∈ back, item ∈ items) ∧ (ofItems p last items).GoesOn us t ts
      (ofItems ((Item.word t.lexeme).stop t.pos) (some t.lexeme) back) := by
  induction items generalizing p last us with
  | nil =>
    have mem : t ∈ (ofItems p last []).tokens := by
      rw [tokens]
      exact List.mem_append_right us List.mem_cons_self
    rw [(pos_lineEnd mem).2] at written
    cases written
  | cons item items ih =>
    obtain ⟨here, visible⟩ := List.forall_mem_cons.1 visible
    have on := Item.precedes_stop p here
    have again : ∀ {last us'}, (ofItems (item.stop p) last items).tokens = us' ++ t :: ts →
        ∃ back, (∀ item' ∈ back, item' ∈ item :: items) ∧
          (ofItems (item.stop p) last items).GoesOn us' t ts
            (ofItems ((Item.word t.lexeme).stop t.pos) (some t.lexeme) back) := by
      intro last us' tokens
      obtain ⟨back, among, goesOn⟩ := ih visible tokens
      exact ⟨back, fun item' mem => List.mem_cons_of_mem _ (among item' mem), goesOn⟩
    have lined : ∀ u ∈ lineEnd last p, u.pos = p := fun u mem => (pos_lineEnd mem).1
    have autos : ∀ u ∈ lineEnd last p, u.auto = true := fun u mem => (pos_lineEnd mem).2
    cases item with
    | blank c =>
      obtain ⟨back, among, goesOn⟩ := again tokens
      exact ⟨back, among, goesOn.cons tokens on (List.forall_mem_nil _) (List.forall_mem_nil _) rfl⟩
    | newline =>
      obtain ⟨us', rfl, rest⟩ := exists_of_append_eq autos written tokens
      obtain ⟨back, among, goesOn⟩ := again rest
      exact ⟨back, among, goesOn.cons rest on lined (List.forall_mem_nil _) rfl⟩
    | comment text =>
      rw [ofItems] at tokens ⊢
      split at tokens
      · next newline =>
        obtain ⟨us', rfl, rest⟩ := exists_of_append_eq autos written tokens
        obtain ⟨back, among, goesOn⟩ := again rest
        rw [if_pos newline]
        exact ⟨back, among, goesOn.cons rest on lined (List.forall_mem_singleton.2 rfl) rfl⟩
      · next single =>
        obtain ⟨back, among, goesOn⟩ := again tokens
        rw [if_neg single]
        exact ⟨back, among,
          goesOn.cons tokens on (List.forall_mem_nil _) (List.forall_mem_singleton.2 rfl) rfl⟩
    | word lexeme =>
      cases us with
      | nil =>
        obtain ⟨rfl, rest⟩ := List.cons.inj tokens
        refine ⟨items, fun item' => List.mem_cons_of_mem _, rest, rfl, ⟨[], rfl, ?_⟩, ?_⟩
        · exact List.forall_mem_nil _
        · exact List.forall_mem_nil _
      | cons u us =>
        obtain ⟨rfl, rest⟩ := List.cons.inj tokens
        obtain ⟨back, among, goesOn⟩ := again rest
        exact ⟨back, among,
          goesOn.cons rest on (List.forall_mem_singleton.2 rfl) (List.forall_mem_nil _) rfl⟩

/-! ## What comes first -/

/-- A layout behind a place on a line: the first comment that starts on the line before anything is
written, if there is one. If the comment spans lines, the line ends where it starts. -/
inductive Gap (layout : Layout) (p : Position) : Option Comment → Prop
  | comment {m : Comment} {ms : List Comment} (comments : layout.comments = m :: ms)
      (line : m.pos.line = p.line) (behind : ¬m.pos.Precedes p) (other : m.ownLine = false)
      (written : ∀ t ∈ layout.tokens, t.auto = false → m.pos.Precedes t.pos)
      (single : m.endLine = m.pos.line → m.pos.Precedes (layout.tokens.headD layout.last).pos)
      (several : m.endLine ≠ m.pos.line → (layout.tokens.headD layout.last).pos = m.pos ∧
        ∀ n ∈ ms, p.line < n.pos.line) : Gap layout p (some m)
  | nothing (apart : ∀ m ∈ layout.comments, p.line < m.pos.line ∨ ∃ t ts, layout.tokens = t :: ts ∧
      t.auto = false ∧ t.pos.line = p.line ∧ t.pos.Precedes m.pos ∧ ¬t.pos.Precedes p) :
      Gap layout p none

/-- Behind a word that ends a statement there is a gap: blanks, then a comment or none, before the next
token or the semicolon of the line end. By induction on the items, which are blanks until the gap ends. -/
theorem exists_gap_ofItems {p q : Position} {w : Lexeme} {items : List Item}
    (ends : w.endsStatement = true) (visible : ∀ item ∈ items, item.text ≠ [])
    (blanks : ∀ c, Item.blank c ∈ items → c ≠ '\n') (line : q.line = p.line) (le : ¬q.Precedes p) :
    ∃ m?, (ofItems q (some w) items).Gap p m? := by
  have semicolon : ∀ q, lineEnd (some w) q = [⟨.op .semicolon, q, true⟩] := fun q => if_pos ends
  induction items generalizing q with
  | nil => exact ⟨none, .nothing (List.forall_mem_nil _)⟩
  | cons item items ih =>
    obtain ⟨here, visible'⟩ := List.forall_mem_cons.1 visible
    have on := Item.precedes_stop q here
    have blanks' : ∀ c, Item.blank c ∈ items → c ≠ '\n' :=
      fun c mem => blanks c (List.mem_cons_of_mem _ mem)
    cases item with
    | blank c =>
      have stays : ((Item.blank c).stop q).line = q.line := by
        show (q.step c).line = q.line
        rw [Position.step, if_neg (blanks c List.mem_cons_self)]
      exact ih visible' blanks' (stays.trans line) fun less => le (on.trans less)
    | newline =>
      refine ⟨none, .nothing fun m mem => .inl ?_⟩
      have below := ((spans_ofItems _ none items).comments m mem).1
      exact Nat.lt_of_lt_of_le (line ▸ Nat.lt_succ_self q.line) below
    | comment text =>
      rw [ofItems]
      split
      · next newline =>
        have lower := Item.line_lt_stop_comment newline q
        refine ⟨_, .comment rfl line le rfl (fun t mem written => ?_) (fun single => ?_)
          fun _ => ⟨?_, ?_⟩⟩
        · rcases List.mem_append.1 mem with auto | behind
          · rw [(pos_lineEnd auto).2] at written
            cases written
          · exact on.trans_not ((from_ofItems _ none items).tokens t behind)
        · exact absurd single (Nat.ne_of_gt lower)
        · show ((lineEnd (some w) q ++ _).headD _).pos = q
          rw [semicolon]
          rfl
        · intro n mem
          have below := ((spans_ofItems _ none items).comments n mem).1
          exact Nat.lt_of_lt_of_le (line ▸ lower) below
      · next single =>
        have rest := from_ofItems ((Item.comment text).stop q) (some w) items
        refine ⟨_, .comment rfl line le rfl (fun t mem _ => on.trans_not (rest.tokens t mem))
          (fun _ => on.trans_not rest.head) fun several => absurd ?_ several⟩
        have none : text.toList.count '\n' = 0 :=
          List.count_eq_zero.2 fun mem => single (List.contains_iff_mem.2 mem)
        show (q.after text.toList).line = q.line
        rw [Position.line_after, none, Nat.add_zero]
    | word lexeme =>
      refine ⟨none, .nothing fun m mem => .inr ⟨_, _, rfl, rfl, line, ?_, le⟩⟩
      exact on.trans_not ((from_ofItems _ _ items).comments m mem)

variable {layout tail : Layout} {us ts : List Token} {t : Token} {m? : Option Comment}

/-- The place behind the word of a token. -/
theorem precedes_stop_token (visible : (Item.word t.lexeme).text ≠ []) :
    t.pos.Precedes ((Item.word t.lexeme).stop t.pos) := Item.precedes_stop _ visible

/-- What comes first is the comment behind the token. -/
theorem GoesOn.noteBehind_eq (h : layout.GoesOn us t ts tail) (tokens : layout.tokens = us ++ t :: ts)
    (visible : (Item.word t.lexeme).text ≠ [])
    (gap : tail.Gap ((Item.word t.lexeme).stop t.pos) m?) : layout.noteBehind t = m? := by
  have on := precedes_stop_token visible
  obtain ⟨ms, comments, before⟩ := h.comments
  have early : ∀ m ∈ ms, ¬t.pos.Precedes m.pos := fun m mem more => (more.trans (before m mem)).ne rfl
  rw [noteBehind, comments, List.find?_append, List.find?_eq_none.2, Option.none_or]
  · cases gap with
    | comment first line behind other written single several =>
      rw [first, List.find?_cons_of_pos]
      refine decide_eq_true ⟨line, on.trans_not behind, fun u mem real later => ?_⟩
      rw [tokens] at mem
      rcases List.mem_append.1 mem with front | mem
      · exact absurd later (h.before u front)
      · rcases List.mem_cons.1 mem with rfl | mem
        · exact absurd later (Position.not_precedes_self _)
        · exact written u (h.tokens ▸ mem) real
    | nothing apart =>
      refine List.find?_eq_none.2 fun m mem found => ?_
      obtain ⟨line, -, first⟩ := of_decide_eq_true found
      rcases apart m mem with below | ⟨u, us', rest, real, -, before, behind⟩
      · exact absurd line (Nat.ne_of_gt below)
      · refine ((first u ?_ real (on.trans_not behind)).trans before).ne rfl
        rw [tokens, ← h.tokens, rest]
        exact List.mem_append_right us (List.mem_cons_of_mem _ List.mem_cons_self)
  · intro m mem found
    exact early m mem (of_decide_eq_true found).2.1

/-- A comment trails if it stands behind the last token, on its line, and before the next token. -/
theorem trails_iff {c : Cursor} {m : Comment} : c.trails m = true ↔ m.pos.line = c.prev.pos.line ∧
    c.prev.pos.col < m.pos.col ∧
    (c.current.pos.line ≠ c.prev.pos.line ∨ m.pos.col < c.current.pos.col) := by
  rw [Cursor.trails]
  simp only [Bool.and_eq_true, Bool.or_eq_true, decide_eq_true_eq, and_assoc]

/-- What stands before the token does not trail it. -/
theorem GoesOn.find?_trails_tail {c : Cursor} (h : layout.GoesOn us t ts tail) (prev : c.prev = t) :
    (layout.comments.filter fun m => !m.ownLine).find? c.trails =
      (tail.comments.filter fun m => !m.ownLine).find? c.trails := by
  obtain ⟨ms, comments, before⟩ := h.comments
  rw [comments, List.filter_append, List.find?_append, List.find?_eq_none.2, Option.none_or]
  intro m mem trails
  obtain ⟨line, behind, -⟩ := trails_iff.1 trails
  have := before m (List.mem_filter.1 mem).1
  rw [prev] at line behind
  unfold Position.Precedes at this
  omega

/-- Behind a token on one line, a cursor finds what comes first, if that is on one line. -/
theorem Gap.find?_trails {c : Cursor} {p : Position} (gap : tail.Gap p m?)
    (line : p.line = c.prev.pos.line) (on : c.prev.pos.Precedes p) (current : c.current = tail.tokens.headD tail.last) :
    (tail.comments.filter fun m => !m.ownLine).find? c.trails =
      m?.filter fun m => m.endLine = m.pos.line := by
  cases gap with
  | @comment m ns first here behind other written single several =>
    rw [← current] at single several
    rw [first, List.filter_cons_of_pos (by rw [other]; rfl)]
    by_cases short : m.endLine = m.pos.line
    · have next := single short
      have later := on.trans_not behind
      unfold Position.Precedes at next later
      rw [List.find?_cons_of_pos (trails_iff.2 (by omega)), Option.filter_some,
        if_pos (decide_eq_true short)]
    · obtain ⟨next, below⟩ := several short
      rw [Option.filter_some, if_neg (by simpa using short)]
      refine List.find?_eq_none.2 fun n mem trails => ?_
      obtain ⟨same, -, ahead⟩ := trails_iff.1 trails
      rcases List.mem_cons.1 mem with rfl | mem
      · rw [next] at ahead
        omega
      · have := below n (List.mem_filter.1 mem).1
        omega
  | nothing apart =>
    refine List.find?_eq_none.2 fun n mem trails => ?_
    obtain ⟨same, -, ahead⟩ := trails_iff.1 trails
    rcases apart n (List.mem_filter.1 mem).1 with below | ⟨u, us', rest', -, lineU, before', -⟩
    · omega
    · rw [current, rest', List.headD_cons] at ahead
      unfold Position.Precedes at before'
      omega

/-- The cursor behind the token finds what comes first, if neither the token nor the comment spans
lines. -/
theorem GoesOn.find?_trails {c : Cursor} (h : layout.GoesOn us t ts tail)
    (visible : (Item.word t.lexeme).text ≠ []) (gap : tail.Gap ((Item.word t.lexeme).stop t.pos) m?)
    (onwards : tail.From ((Item.word t.lexeme).stop t.pos)) (prev : c.prev = t) (rest : c.rest = ts)
    (stop : c.stop = layout.last) :
    (layout.comments.filter fun m => !m.ownLine).find? c.trails =
      if t.endLine = t.pos.line then m?.filter fun m => m.endLine = m.pos.line else none := by
  rw [h.find?_trails_tail prev]
  by_cases upright : t.endLine = t.pos.line
  · rw [if_pos upright]
    have current : c.current = tail.tokens.headD tail.last := by
      rw [Cursor.current, rest, stop, h.tokens, last, last, h.stop]
    subst prev
    exact gap.find?_trails upright (precedes_stop_token visible) current
  · rw [if_neg upright]
    refine List.find?_eq_none.2 fun n mem trails => ?_
    obtain ⟨same, -, -⟩ := trails_iff.1 trails
    rw [prev] at same
    have further := onwards.comments n (List.mem_filter.1 mem).1
    have le := Item.line_le_stop (.word t.lexeme) t.pos
    have other : ((Item.word t.lexeme).stop t.pos).line ≠ t.pos.line := upright
    unfold Position.Precedes at further
    omega

/-! ## In a source -/

/-- What a line end brings about is a semicolon. -/
theorem semicolon_of_auto {p : Position} {last : Option Lexeme} {items : List Item}
    (mem : t ∈ (ofItems p last items).tokens) (auto : t.auto = true) :
    t.lexeme = .op .semicolon := by
  induction items generalizing p last with
  | nil => exact lineEnd_eq_semicolon mem
  | cons item items ih =>
    cases item with
    | blank c => exact ih mem
    | newline =>
      rcases List.mem_append.1 mem with here | behind
      · exact lineEnd_eq_semicolon here
      · exact ih behind
    | comment text =>
      rw [ofItems] at mem
      split at mem
      · rcases List.mem_append.1 mem with here | behind
        · exact lineEnd_eq_semicolon here
        · exact ih behind
      · exact ih mem
    | word lexeme =>
      rcases List.mem_cons.1 mem with rfl | behind
      · cases auto
      · exact ih behind

/-- In a source, the cursor behind a token that ends a statement finds the comment behind the token,
exactly if there is none or neither the token nor the comment spans lines. -/
theorem find?_trails_eq {source : String} {c : Cursor} (h : Layout.ofSource source = .ok layout)
    (tokens : layout.tokens = us ++ t :: c.rest) (stop : c.stop = layout.last) (prev : c.prev = t)
    (ends : t.lexeme.endsStatement = true) :
    (layout.comments.filter fun m => !m.ownLine).find? c.trails =
      if t.endLine = t.pos.line then (layout.noteBehind t).filter fun m => m.endLine = m.pos.line
      else none := by
  have mem : t ∈ layout.tokens := by
    rw [tokens]
    exact List.mem_append_right us List.mem_cons_self
  obtain ⟨rfl, -⟩ := ofItems_scan_of_ofSource h
  have other : t.lexeme ≠ .op .semicolon := by
    intro semicolon
    rw [semicolon] at ends
    cases ends
  have written : t.auto = false := Bool.eq_false_iff.2 fun auto => other (semicolon_of_auto mem auto)
  have visible : ∀ item ∈ (scan source.toList).1, item.text ≠ [] :=
    fun item mem => Item.text_ne_nil_of_mem_scan mem
  have word : (Item.word t.lexeme).text ≠ [] := visible _ ((mem_ofItems mem).resolve_right other)
  obtain ⟨back, among, goesOn⟩ := exists_goesOn visible tokens written
  obtain ⟨m?, gap⟩ := exists_gap_ofItems ends (fun item mem => visible item (among item mem))
    (fun c mem => Item.ne_newline_of_mem_scan (among _ mem)) rfl (Position.not_precedes_self _)
  rw [goesOn.noteBehind_eq tokens word gap]
  exact goesOn.find?_trails word gap (from_ofItems _ _ back) prev rfl stop

end Layout

end Typings
