import Typings.Proofs.Attached.Places
import Typings.Proofs.LineEnds.Comments

/-!
# Layouts with carriage returns

The layout of a source and that of the source with a carriage return before each newline are made of pairs
(`Layout.exists_pair`). Places are the same in both, but for the semicolons that newlines bring about: these
stand one column further on, behind all comments of their lines as before. Comments differ in how they are
written, and so do literals.
-/

namespace Typings

open Text (crlf crlf_newline crlf_cons)

/-! ## Pairs -/

/-- What shows of a lexeme: all but the characters of a literal. -/
def Lexeme.seen : Lexeme → Lexeme
  | .literal kind _ => .literal kind ""
  | w => w

/-- The places are on one line, and on one side of each comment there. -/
structure Position.Alike (ms : List Comment) (p q : Position) : Prop where
  line : q.line = p.line
  behind_iff : ∀ m ∈ ms, m.pos.line = p.line → (m.pos.col < q.col ↔ m.pos.col < p.col)
  before_iff : ∀ m ∈ ms, m.pos.line = p.line → (q.col < m.pos.col ↔ p.col < m.pos.col)

/-- Two tokens that show the same, at places that are alike among some comments. -/
structure TokenPair (ms : List Comment) where
  fst : Token
  snd : Token
  seen : snd.lexeme.seen = fst.lexeme.seen
  pos : fst.pos.Alike ms snd.pos

/-- Two comments that say the same at one place, the first of them among the given ones. -/
structure CommentPair (ms : List Comment) where
  fst : Comment
  snd : Comment
  mem : fst ∈ ms
  pos : snd.pos = fst.pos
  endLine : snd.endLine = fst.endLine
  ownLine : snd.ownLine = fst.ownLine
  said : said snd.text = said fst.text

/-- Two layouts that are made of pairs and stop at one place. -/
structure LayoutPair (ms : List Comment) where
  tokens : List (TokenPair ms)
  comments : List (CommentPair ms)
  stop : Position

namespace LayoutPair

variable {ms : List Comment}

/-- The first layout. -/
def fst (d : LayoutPair ms) : Layout :=
  ⟨d.tokens.map TokenPair.fst, d.comments.map CommentPair.fst, d.stop⟩

/-- The second layout. -/
def snd (d : LayoutPair ms) : Layout :=
  ⟨d.tokens.map TokenPair.snd, d.comments.map CommentPair.snd, d.stop⟩

/-- Tokens in front of both. -/
def withTokens (ts : List (TokenPair ms)) (d : LayoutPair ms) : LayoutPair ms :=
  { d with tokens := ts ++ d.tokens }

/-- Comments in front of both. -/
def withComment (m : CommentPair ms) (d : LayoutPair ms) : LayoutPair ms :=
  { d with comments := m :: d.comments }

theorem fst_withTokens (ts : List (TokenPair ms)) (d : LayoutPair ms) :
    (d.withTokens ts).fst = d.fst.withTokens (ts.map TokenPair.fst) := by
  simp [withTokens, fst, Layout.withTokens]

theorem snd_withTokens (ts : List (TokenPair ms)) (d : LayoutPair ms) :
    (d.withTokens ts).snd = d.snd.withTokens (ts.map TokenPair.snd) := by
  simp [withTokens, snd, Layout.withTokens]

/-- The two layouts are those of a pair. -/
def Makes (ms : List Comment) (l l' : Layout) : Prop := ∃ d : LayoutPair ms, d.fst = l ∧ d.snd = l'

theorem Makes.withTokens {l l' : Layout} (h : Makes ms l l') (ts : List (TokenPair ms)) :
    Makes ms (l.withTokens (ts.map TokenPair.fst)) (l'.withTokens (ts.map TokenPair.snd)) := by
  obtain ⟨d, rfl, rfl⟩ := h
  exact ⟨d.withTokens ts, d.fst_withTokens ts, d.snd_withTokens ts⟩

theorem Makes.withComment {l l' : Layout} (h : Makes ms l l') (m : CommentPair ms) :
    Makes ms (l.withComment m.fst) (l'.withComment m.snd) := by
  obtain ⟨d, rfl, rfl⟩ := h
  exact ⟨d.withComment m, rfl, rfl⟩

end LayoutPair

/-! ## Places -/

namespace Position

variable {ms : List Comment} {p : Position}

theorem Alike.refl (ms : List Comment) (p : Position) : p.Alike ms p :=
  ⟨rfl, fun _ _ _ => Iff.rfl, fun _ _ _ => Iff.rfl⟩

/-- Behind all comments of its line, a place may be moved. -/
theorem Alike.right (last : ∀ m ∈ ms, m.pos.line = p.line → m.pos.col < p.col) (n : Nat) :
    p.Alike ms (p.right n) where
  line := rfl
  behind_iff m mem same := by
    have lt := last m mem same
    exact iff_of_true (Nat.lt_of_lt_of_le lt (Nat.le_add_right _ _)) lt
  before_iff m mem same := by
    have lt := last m mem same
    exact iff_of_false (fun h => absurd (Nat.lt_trans (Nat.lt_of_le_of_lt (Nat.le_add_right _ _) h) lt)
      (Nat.lt_irrefl _)) (Nat.not_lt.2 (Nat.le_of_lt lt))

/-- A carriage return before a newline does not move what is behind it. -/
theorem after_crlf (p : Position) (cs : List Char) : p.after (crlf cs) = p.after cs := by
  induction cs generalizing p with
  | nil => rfl
  | cons c cs ih =>
    by_cases newline : c = '\n'
    · subst newline
      exact ih _
    · rw [crlf_cons newline, after_cons, after_cons, ih]

end Position

theorem Lexeme.endsStatement_seen (w : Lexeme) : w.seen.endsStatement = w.endsStatement := by
  cases w <;> rfl

theorem Item.stop_comment (text : String) (p : Position) :
    (Item.comment text).stop p = p.after text.toList := rfl

theorem Item.stop_raw (cs : List Char) (p : Position) :
    (Item.word (.literal .string (String.ofList ('\x60' :: cs)))).stop p = p.after ('\x60' :: cs) := by
  simp [stop, isFlat, Item.text, Lexeme.text]

/-- A line end brings about a semicolon in both layouts, or in neither. -/
theorem exists_lineEnd {ms : List Comment} {last last' : Option Lexeme} {p q : Position}
    (seen : last'.map Lexeme.seen = last.map Lexeme.seen) (alike : p.Alike ms q) :
    ∃ ts : List (TokenPair ms), ts.map TokenPair.fst = lineEnd last p ∧
      ts.map TokenPair.snd = lineEnd last' q := by
  have ends : last'.any Lexeme.endsStatement = last.any Lexeme.endsStatement := by
    have any_seen : ∀ last : Option Lexeme,
        (last.map Lexeme.seen).any Lexeme.endsStatement = last.any Lexeme.endsStatement := by
      rintro (_ | w)
      · rfl
      · exact w.endsStatement_seen
    rw [← any_seen, seen, any_seen]
  unfold lineEnd
  rw [ends]
  split
  · exact ⟨[⟨⟨.op .semicolon, p, true⟩, ⟨.op .semicolon, q, true⟩, rfl, alike⟩], rfl, rfl⟩
  · exact ⟨[], rfl, rfl⟩

/-! ## Layouts -/

/-- The layout of what is behind a place has all comments but those before it. -/
structure Comes (ms : List Comment) (p : Position) (l : Layout) : Prop where
  mem : ∀ m ∈ l.comments, m ∈ ms
  precedes_or_mem : ∀ m ∈ ms, m.pos.Precedes p ∨ m ∈ l.comments

namespace Comes

variable {ms : List Comment} {p q : Position} {l l' : Layout}

theorem skip (h : Comes ms p l) (on : p.Precedes q) (same : l'.comments = l.comments) :
    Comes ms q l' where
  mem m mem := h.mem m (same ▸ mem)
  precedes_or_mem m mem := (h.precedes_or_mem m mem).imp (·.trans on) (same ▸ ·)

theorem pass {m : Comment} (h : Comes ms p l) (here : m.pos = p) (on : p.Precedes q)
    (first : l.comments = m :: l'.comments) : Comes ms q l' where
  mem n mem := h.mem n (first ▸ List.mem_cons_of_mem _ mem)
  precedes_or_mem n mem := by
    rcases h.precedes_or_mem n mem with before | among
    · exact .inl (before.trans on)
    · rw [first] at among
      rcases List.mem_cons.1 among with rfl | behind
      · exact .inl (here ▸ on)
      · exact .inr behind

/-- At a line end, the comments of the line are before it. -/
theorem alike_right (h : Comes ms p l) (below : ∀ m ∈ l.comments, p.line < m.pos.line) (n : Nat) :
    p.Alike ms (p.right n) := by
  refine .right (fun m mem same => ?_) n
  rcases h.precedes_or_mem m mem with before | among
  · exact before.elim (fun lt => absurd same (Nat.ne_of_lt lt)) And.right
  · exact absurd same.symm (Nat.ne_of_lt (below m among))

end Comes

namespace Layout

open LayoutPair (Makes)

variable {ms : List Comment} {p : Position} {last last' : Option Lexeme} {items items' : List Item}

/-- What layouts of items are pairs of, wherever the items start. -/
def MakesPairs (items items' : List Item) : Prop :=
  ∀ {ms p last last'}, last'.map Lexeme.seen = last.map Lexeme.seen →
    Comes ms p (ofItems p last items) → Makes ms (ofItems p last items) (ofItems p last' items')

/-- A newline with a carriage return before it. -/
theorem makes_newline (pairs : MakesPairs items items')
    (seen : last'.map Lexeme.seen = last.map Lexeme.seen)
    (comes : Comes ms p (ofItems p last (.newline :: items))) :
    Makes ms (ofItems p last (.newline :: items)) (ofItems (p.right 1) last' (.newline :: items')) := by
  have next : Item.newline.stop (p.right 1) = Item.newline.stop p := rfl
  have below : ∀ m ∈ (ofItems p last (.newline :: items)).comments, p.line < m.pos.line :=
    fun m mem => ((spans_ofItems (Item.newline.stop p) none items).comments m mem).1
  obtain ⟨ts, first, second⟩ := exists_lineEnd seen (comes.alike_right below 1)
  have on : p.Precedes (Item.newline.stop p) := Item.precedes_stop p (List.cons_ne_nil '\n' [])
  rw [ofItems, ofItems, next, ← first, ← second]
  exact (pairs rfl (comes.skip on rfl)).withTokens ts

/-- Two comments at one place that say the same, the first of them in a layout. -/
theorem exists_commentPair {l : Layout} {text text' : String} {line : Nat}
    (seen : last'.map Lexeme.seen = last.map Lexeme.seen) (told : said text' = said text)
    (comes : Comes ms p (l.withComment ⟨text, p, line, last.isNone⟩)) :
    ∃ pair : CommentPair ms, pair.fst = ⟨text, p, line, last.isNone⟩ ∧
      pair.snd = ⟨text', p, line, last'.isNone⟩ := by
  have own : last'.isNone = last.isNone := by
    have none := congrArg Option.isNone seen
    rwa [Option.isNone_map, Option.isNone_map] at none
  exact ⟨⟨_, ⟨text', p, line, last'.isNone⟩, comes.mem _ List.mem_cons_self, rfl, rfl, own, told⟩,
    rfl, rfl⟩

/-- A comment that holds newlines in both layouts, or in neither. -/
theorem makes_comment {text text' : String} (pairs : MakesPairs items items')
    (seen : last'.map Lexeme.seen = last.map Lexeme.seen)
    (comes : Comes ms p (ofItems p last (.comment text :: items))) (told : said text' = said text)
    (some : text.toList ≠ []) (stop : (Item.comment text').stop p = (Item.comment text).stop p)
    (newlines : text'.toList.contains '\n' = text.toList.contains '\n') :
    Makes ms (ofItems p last (.comment text :: items)) (ofItems p last' (.comment text' :: items')) := by
  have on : p.Precedes ((Item.comment text).stop p) := Item.precedes_stop p some
  rw [ofItems] at comes
  rw [ofItems, ofItems, stop, newlines]
  split
  · next holds =>
    rw [if_pos holds] at comes
    obtain ⟨pair, first, second⟩ := exists_commentPair seen told comes
    obtain ⟨ts, semis, semis'⟩ := exists_lineEnd seen (Position.Alike.refl ms p)
    rw [← semis, ← semis', ← first, ← second]
    exact ((pairs rfl (comes.pass rfl on rfl)).withTokens ts).withComment pair
  · next none =>
    rw [if_neg none] at comes
    obtain ⟨pair, first, second⟩ := exists_commentPair seen told comes
    rw [← first, ← second]
    exact (pairs seen (comes.pass rfl on rfl)).withComment pair

theorem ofItems_line {text : String} (none : '\n' ∉ text.toList) :
    ofItems p last (.comment text :: items) =
      (ofItems ((Item.comment text).stop p) last items).withComment
        ⟨text, p, ((Item.comment text).stop p).line, last.isNone⟩ := by
  rw [ofItems, if_neg (by simpa using none)]

/-- A line comment that takes the carriage return before the newline behind it. -/
theorem makes_line {body : List Char} (none : '\n' ∉ body) (pairs : MakesPairs items items')
    (seen : last'.map Lexeme.seen = last.map Lexeme.seen)
    (comes : Comes ms p
      (ofItems p last (.comment (String.ofList ('/' :: '/' :: body)) :: .newline :: items))) :
    Makes ms (ofItems p last (.comment (String.ofList ('/' :: '/' :: body)) :: .newline :: items))
      (ofItems p last'
        (.comment (String.ofList ('/' :: '/' :: (body ++ ['\r']))) :: .newline :: items')) := by
  have unbroken : ∀ cs, '\n' ∉ cs → '\n' ∉ (String.ofList ('/' :: '/' :: cs)).toList :=
    fun cs none => by simpa using none
  have carriage : '\n' ∉ body ++ ['\r'] := List.not_mem_append none (by decide)
  have stop : (Item.comment (String.ofList ('/' :: '/' :: (body ++ ['\r'])))).stop p =
      ((Item.comment (String.ofList ('/' :: '/' :: body))).stop p).right 1 := by
    rw [Item.stop_comment, Item.stop_comment]
    simp [Position.after_append, Position.step, Position.right]
  have on : p.Precedes ((Item.comment (String.ofList ('/' :: '/' :: body))).stop p) :=
    Item.precedes_stop p (by simp [Item.text])
  rw [ofItems_line (unbroken body none)] at comes ⊢
  rw [ofItems_line (unbroken _ carriage), stop]
  obtain ⟨pair, first, second⟩ := exists_commentPair seen (said_line body) comes
  rw [← first, Position.right, ← second]
  exact (makes_newline pairs seen (comes.pass rfl on rfl)).withComment pair

/-- A word that shows the same in both layouts. -/
theorem makes_word {w w' : Lexeme} (pairs : MakesPairs items items')
    (comes : Comes ms p (ofItems p last (.word w :: items))) (some : w.text.toList ≠ [])
    (seen : w'.seen = w.seen) (stop : (Item.word w').stop p = (Item.word w).stop p) :
    Makes ms (ofItems p last (.word w :: items)) (ofItems p last' (.word w' :: items')) := by
  have on : p.Precedes ((Item.word w).stop p) := Item.precedes_stop p some
  have last : (Option.some w').map Lexeme.seen = (Option.some w).map Lexeme.seen :=
    congrArg Option.some seen
  rw [ofItems, ofItems, stop]
  exact (pairs last (comes.skip on rfl)).withTokens
    [⟨⟨w, p, false⟩, ⟨w', p, false⟩, seen, .refl ms p⟩]

/-- Items that are kept are laid out in pairs with what is behind them. -/
theorem makes_kept {item item' : Item} (kept : item.Kept item') (some : item.text ≠ [])
    (pairs : MakesPairs items items') : MakesPairs (item :: items) (item' :: items') := by
  intro ms p last last' seen comes
  cases kept with
  | plain none =>
    cases item with
    | blank c =>
      rw [ofItems, ofItems]
      exact pairs seen (comes.skip (Item.precedes_stop p some) rfl)
    | newline => exact absurd List.mem_cons_self none
    | comment text => exact makes_comment pairs seen comes rfl some rfl rfl
    | word lexeme => exact makes_word pairs comes some rfl rfl
  | block inside =>
    refine makes_comment pairs seen comes (said_block inside) some ?_ ?_
    · rw [Item.stop_comment, Item.stop_comment]
      simp [Position.after_append, Position.after_crlf]
    · simp [Text.newline_mem_crlf]
  | raw inside =>
    refine makes_word pairs comes some rfl ?_
    rw [Item.stop_raw, Item.stop_raw, Position.after_cons, Position.after_cons, Position.after_crlf]

/-- The items of a text and those of the text with carriage returns are laid out in pairs. -/
theorem makesPairs_of_recut (recut : Recut items items') (some : ∀ item ∈ items, item.text ≠ []) :
    MakesPairs items items' := by
  induction recut with
  | nil =>
    intro ms p last last' seen comes
    obtain ⟨ts, first, second⟩ := exists_lineEnd seen (Position.Alike.refl ms p)
    rw [ofItems, ofItems, ← first, ← second]
    exact ⟨⟨ts, [], p⟩, rfl, rfl⟩
  | newline _ ih =>
    intro ms p last last' seen comes
    exact makes_newline (ih (List.forall_mem_cons.1 some).2) seen comes
  | line none _ ih =>
    intro ms p last last' seen comes
    exact makes_line none (ih (List.forall_mem_cons.1 (List.forall_mem_cons.1 some).2).2) seen comes
  | item kept _ ih =>
    obtain ⟨here, later⟩ := List.forall_mem_cons.1 some
    exact makes_kept kept here (ih later)

/-- The layouts of a source and of the source with a carriage return before each newline are a pair, if
either of them can be laid out. -/
theorem exists_pair {cs : List Char} (unescaped : Unescaped cs) :
    (∃ (ms : List Comment) (d : LayoutPair ms), ofSource (String.ofList cs) = .ok d.fst ∧
      ofSource (String.ofList (crlf cs)) = .ok d.snd) ∨
    ∃ e e', ofSource (String.ofList cs) = .error e ∧ ofSource (String.ofList (crlf cs)) = .error e' := by
  obtain ⟨recut, fault⟩ := scan_crlf cs unescaped
  cases complete : (scan cs).2 with
  | none =>
    have some : ∀ item ∈ (scan cs).1, item.text ≠ [] :=
      fun item mem => Item.text_ne_nil_of_mem_scan mem
    have comes : Comes (ofItems .start none (scan cs).1).comments .start
        (ofItems .start none (scan cs).1) := ⟨fun _ mem => mem, fun _ mem => .inr mem⟩
    have seen : (none : Option Lexeme).map Lexeme.seen = (none : Option Lexeme).map Lexeme.seen := rfl
    obtain ⟨d, first, second⟩ := makesPairs_of_recut recut some seen comes
    refine .inl ⟨_, d, ofSource_eq_ok.2 ?_, ofSource_eq_ok.2 ?_⟩
    · rw [String.toList_ofList]
      exact ⟨complete, first⟩
    · rw [String.toList_ofList]
      exact ⟨fault.trans complete, second⟩
  | some cause =>
    have fails : ∀ {cs}, (scan cs).2 = some cause → ∃ e, ofSource (String.ofList cs) = .error e := by
      intro cs fault
      rw [ofSource, String.toList_ofList]
      cases scanned : scan cs with
      | mk items faults =>
        rw [scanned] at fault
        cases fault
        exact ⟨_, rfl⟩
    obtain ⟨e, first⟩ := fails complete
    obtain ⟨e', second⟩ := fails (fault.trans complete)
    exact .inr ⟨e, e', first, second⟩

end Layout

end Typings
