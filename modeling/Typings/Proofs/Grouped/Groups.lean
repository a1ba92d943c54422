import Typings.Proofs.Grouped.Sources
import Typings.Proofs.Grouped.Types
import Typings.Proofs.Joined.Files

/-!
# Groups of type specifications

A group of type specifications declares what the specifications declare one by one, with the same
comments above and behind them (`File.parse_inGroup`). Each is read at two places: behind its own word
`type`, and in the group, one line further down and behind a margin. There it is followed by others, whose
comments behind tokens stand on other lines.
-/

namespace Typings

/-! ## Comments above lines -/

/-- The comment without its column, which no line above or below is told by. -/
def Comment.onLine (m : Comment) : Comment := { m with pos := ⟨m.pos.line, 0⟩ }

theorem Cursor.docRun_onLine (line : Nat) (ms : List Comment) :
    docRun line (ms.map Comment.onLine) = docRun line ms := by
  induction ms generalizing line with
  | nil => rfl
  | cons m ms ih => simp only [List.map_cons, docRun, Comment.onLine, ih]

namespace SpecText

theorem commentLines_onLine (n columns columns' : Nat) (cs : List String) :
    (commentLines (n + 1) columns' cs).map Comment.onLine =
      ((commentLines n columns cs).map (Comment.down 1)).map Comment.onLine := by
  induction cs generalizing n with
  | nil => rfl
  | cons c cs ih =>
    rw [commentLines, commentLines, List.map_cons, List.map_cons, List.map_cons, ih]
    rfl

/-- One line further down, the same comments stand one line further down. -/
theorem commentsOf_onLine (margin columns margin' columns' n : Nat) (ss : List SpecText) :
    (commentsOf margin' columns' (n + 1) ss).map Comment.onLine =
      ((commentsOf margin columns n ss).map (Comment.down 1)).map Comment.onLine := by
  induction ss generalizing n with
  | nil => rfl
  | cons s ss ih =>
    have placed : (s.layout.placed (n + 1 + s.comments.length) columns').comments.map Comment.onLine =
        ((s.layout.placed (n + s.comments.length) columns).comments.map
          (Comment.down 1)).map Comment.onLine := by
      rw [Nat.add_right_comm n 1, Layout.placed, Layout.placed, List.map_map, List.map_map, List.map_map]
      rfl
    rw [commentsOf, commentsOf, Nat.add_right_comm n 1 s.height, List.map_append, List.map_append,
      List.map_append, List.map_append, List.map_append, List.map_append, ih,
      commentLines_onLine n margin margin', placed]

/-- The comments above lines are the same in both sources, one line further down. -/
theorem docRun_inGroup (margin columns margin' columns' : Nat) (ss : List SpecText) (line : Nat) :
    Cursor.docRun (line + 1) ((commentsOf margin' columns' 1 ss).filter Comment.ownLine).reverse =
      Cursor.docRun line ((commentsOf margin columns 0 ss).filter Comment.ownLine).reverse := by
  have kept : ∀ ms : List Comment, (ms.filter Comment.ownLine).map Comment.onLine =
      (ms.map Comment.onLine).filter Comment.ownLine := by
    intro ms
    rw [List.filter_map]
    rfl
  have moved : ∀ ms : List Comment, (ms.filter Comment.ownLine).map (Comment.down 1) =
      (ms.map (Comment.down 1)).filter Comment.ownLine := by
    intro ms
    rw [List.filter_map]
    rfl
  rw [← Cursor.docRun_onLine, List.map_reverse, kept, commentsOf_onLine margin columns, ← kept, ← moved,
    ← List.map_reverse, Cursor.docRun_onLine, ← List.map_reverse, Cursor.docRun_down]

/-! ## Comments behind tokens -/

/-- The comments behind tokens of specifications below so many lines, whose first lines begin so many
columns further right. -/
def trailing (columns : Nat) : Nat → List SpecText → List Comment
  | _, [] => []
  | n, s :: ss =>
    (Cursor.ofLayout s.layout).trailing.map (Comment.placed (n + s.comments.length) columns) ++
      trailing columns (n + s.height) ss

theorem filter_commentLines (n columns : Nat) (cs : List String) :
    (commentLines n columns cs).filter (fun m => !m.ownLine) = [] := by
  induction cs generalizing n with
  | nil => rfl
  | cons c cs ih =>
    rw [commentLines, List.filter_cons_of_neg (by simp), ih]

theorem filter_commentsOf (margin columns n : Nat) (ss : List SpecText) :
    (commentsOf margin columns n ss).filter (fun m => !m.ownLine) = trailing columns n ss := by
  induction ss generalizing n with
  | nil => rfl
  | cons s ss ih =>
    rw [commentsOf, List.filter_append, List.filter_append, filter_commentLines, ih, List.nil_append,
      Layout.placed, List.filter_map]
    rfl

/-- All of the layout alone stands on the lines from the first to that of its end. -/
theorem spans_layout (s : SpecText) : s.layout.Spans 1 := Layout.spans_ofItems .start none _

theorem line_of_mem_trailing {columns n : Nat} {ss : List SpecText} {m : Comment}
    (mem : m ∈ trailing columns n ss) : n < m.pos.line := by
  induction ss generalizing n with
  | nil => cases mem
  | cons s ss ih =>
    rcases List.mem_append.1 mem with here | behind
    · obtain ⟨x, comment, rfl⟩ := List.mem_map.1 here
      have line := ((spans_layout s).comments x (Cursor.trailing_ofLayout x comment)).1
      show n < x.pos.line + (n + s.comments.length)
      omega
    · have line := ih behind
      omega

end SpecText

/-! ## Reading one specification -/

namespace Parser

section items

variable {α : Type} {close : Lexeme} {item : Parser α} {n : Nat} {c c' c'' : Cursor}

theorem itemsUntil_nil (here : c.current.lexeme = close) :
    itemsUntil close item (n + 1) c = .ok ([], c) := by
  rw [itemsUntil, isAt_bind, decide_eq_true here]
  rfl

theorem itemsUntil_cons {x : α} {xs : List α} (open_ : c.current.lexeme ≠ close)
    (other : c.current.lexeme ≠ .op .semicolon) (first : item c = .ok (x, c'))
    (more : itemsUntil close item n c' = .ok (xs, c'')) :
    itemsUntil close item (n + 1) c = .ok (x :: xs, c'') := by
  rw [itemsUntil, isAt_bind, decide_eq_false open_, if_neg Bool.false_ne_true, isAt_bind,
    decide_eq_false other, if_neg Bool.false_ne_true]
  exact bind_eq_ok.2 ⟨x, c', first, bind_eq_ok.2 ⟨xs, c'', more, rfl⟩⟩

end items

theorem typeStatement_isStatement (doc : Option CommentGroup) : (typeStatement doc).IsStatement :=
  isStatement_of (typeSpec_framed doc) (typeSpec_ends doc) id

/-- Statements that are read at cursors that agree. -/
theorem Tracks.typeStatement {f : CommentGroup → Option CommentGroup} {R : Cursor → Cursor → Prop}
    (agree : Cursor.Agree f R) {doc doc' : Option CommentGroup} (docs : doc'.bind f = doc.bind f) :
    Tracks R (TypeSpec.mapComments f) (typeStatement doc) (typeStatement doc') :=
  statement agree (typeSpec agree docs)

end Parser

namespace SpecText

variable {s : SpecText} {n k n' k' : Nat}

open Typings.Parser

/-- Alone, a specification is read to its end. -/
theorem IsWritten.exists_run (h : s.IsWritten) : Layout.ofSource s.text = .ok s.layout ∧
    ∃ spec c, typeStatement none (.ofLayout s.layout) = .ok (spec, c) ∧ c.rest = [] := by
  obtain ⟨spec, run⟩ := h.exists_spec
  obtain ⟨l, c', scanned, run⟩ := run_eq_ok.1 run
  obtain rfl : l = s.layout := (Layout.ofSource_eq_ok.1 scanned).2
  obtain ⟨spec', c, run, ends⟩ := bind_eq_ok.1 run
  refine ⟨scanned, spec', c, run, ?_⟩
  rw [isAt_bind] at ends
  split at ends
  · next here =>
    cases rest : c.rest with
    | nil => rfl
    | cons t ts =>
      obtain ⟨us, tokens, -⟩ := ((typeStatement_isStatement none).forward run).tokens
      have mem : t ∈ s.layout.tokens := by
        show t ∈ (Cursor.ofLayout s.layout).rest
        rw [tokens, rest]
        exact List.mem_append_right _ List.mem_cons_self
      rw [Cursor.current_of_rest rest] at here
      exact absurd (of_decide_eq_true here) (Layout.lexeme_ne_eof scanned mem)
  · exact absurd ends fail_ne_ok

/-- The last token of a specification alone is a semicolon, be it for the end of its line. -/
theorem IsWritten.inside (h : s.IsWritten) (around : Surroundings) (own : List Comment) :
    around.Inside ((Cursor.ofLayout s.layout).placed n k own) := by
  obtain ⟨scanned, spec, c, run, behind⟩ := h.exists_run
  obtain ⟨us, t, tokens, closes⟩ := (typeStatement_isStatement none).closes (Cursor.isEnded_ofLayout _) run
  rw [behind] at tokens
  have ahead : ((Cursor.ofLayout s.layout).placed n k own).ahead = us.map Token.lexeme ++ [t.lexeme] := by
    rw [Cursor.ahead_placed, Cursor.ahead, tokens, List.map_append]
    rfl
  have last : LastIs Closes (us.map Token.lexeme ++ [t.lexeme]) := .behind _ (.singleton closes)
  have settled : LastIs StaysOpen (us.map Token.lexeme ++ [t.lexeme]) := by
    rw [← ahead, Cursor.ahead_placed]
    exact (lexemes_of_reaches scanned (.refl _)).1
  refine Surroundings.inside_of_lastIs (fun nothing => ?_) (ahead ▸ lastIs_semicolon last settled)
  rw [Cursor.ahead, nothing] at ahead
  exact List.append_ne_nil_of_right_ne_nil _ (List.cons_ne_nil _ _) ahead.symm

/-- A specification is read at two places as the same, if the comments above its lines are the same. -/
theorem IsWritten.reads_placed (h : s.IsWritten) (doc : Option CommentGroup) {own own' : List Comment}
    (docs : ∀ line, Cursor.docRun (line + n') own' = Cursor.docRun (line + n) own) :
    ∃ spec c c', typeStatement doc ((Cursor.ofLayout s.layout).placed n k own) = .ok (spec, c) ∧
      typeStatement doc ((Cursor.ofLayout s.layout).placed n' k' own') = .ok (spec, c') ∧
      c.rest = [] ∧ c'.rest = [] := by
  obtain ⟨-, spec₀, c₀, run₀, behind⟩ := h.exists_run
  have none_of_ahead : ∀ {c d : Cursor}, d.ahead = c.ahead → c.rest = [] → d.rest = [] := by
    intro c d same nothing
    rw [Cursor.ahead, Cursor.ahead, nothing] at same
    exact List.map_eq_nil_iff.1 same
  -- That it is read at all does not depend on comments.
  have same : Cursor.SameAhead (.ofLayout s.layout) ((Cursor.ofLayout s.layout).placed n k own) :=
    ⟨⟨rfl, rfl⟩, Cursor.ahead_placed⟩
  have docs₀ : doc.bind (fun _ : CommentGroup => (none : Option CommentGroup)) =
      (none : Option CommentGroup).bind fun _ => none := by cases doc <;> rfl
  obtain ⟨spec, c, run, here, -⟩ :=
    Tracks.typeStatement Cursor.agree_sameAhead docs₀ _ _ _ _ same run₀
  -- What is read there, comments and all, is read at the other place.
  have text : Cursor.SameText n k n' k' ((Cursor.ofLayout s.layout).placed n k own)
      ((Cursor.ofLayout s.layout).placed n' k' own') :=
    ⟨_, own, own', Cursor.isEnded_ofLayout _, rfl, rfl, docs⟩
  obtain ⟨spec', c', run', there, told⟩ :=
    Tracks.typeStatement Cursor.agree_placed rfl _ _ _ _ text run
  rw [TypeSpec.mapComments_some, TypeSpec.mapComments_some] at told
  have behind' := none_of_ahead here.2 behind
  exact ⟨spec, c, c', run, told ▸ run', behind', none_of_ahead (Cursor.agree_placed.ahead there) behind'⟩

end SpecText

/-! ## Reading specifications among others -/

/-- With so many lines behind the cursor, these tokens are ahead, and comments on lines of their own and
behind tokens; of the latter some may be left over from the lines behind. -/
structure Cursor.Below (n : Nat) (tokens : List Token) (own trailing : List Comment) (c : Cursor) :
    Prop where
  ended : c.IsEnded
  rest : c.rest = tokens
  own : c.own = own
  trailing : ∃ left, c.trailing = left ++ trailing ∧ ∀ m ∈ left, m.pos.line ≤ n

namespace Cursor.Below

variable {n n' : Nat} {t : Token} {ts : List Token} {own trailing : List Comment} {c : Cursor}

theorem mono (h : c.Below n ts own trailing) (le : n ≤ n') : c.Below n' ts own trailing := by
  obtain ⟨left, comments, lines⟩ := h.trailing
  exact ⟨h.ended, h.rest, h.own, left, comments, fun m mem => Nat.le_trans (lines m mem) le⟩

theorem advance (h : c.Below n (t :: ts) own trailing) : c.advance.Below n ts own trailing := by
  refine ⟨h.ended, ?_, h.own, h.trailing⟩
  rw [Cursor.advance, Cursor.pass, h.rest]
  rfl

theorem current (h : c.Below n (t :: ts) own trailing) : c.current = t :=
  Cursor.current_of_rest h.rest

end Cursor.Below

namespace SpecText

open Typings.Parser

variable {s : SpecText} {n k : Nat}

/-- What is around a specification: tokens that are passed and tokens after it, comments that are left
over from lines above and comments of lines below. -/
def around (d : Cursor) (after : List Token) (left later : List Comment) : Surroundings where
  shift := 0
  before := d.passed
  after := after
  stop := d.stop
  ownBefore := []
  ownAfter := []
  trailingBefore := left
  trailingAfter := later

theorem within_around {c d : Cursor} {after : List Token} {left later : List Comment} :
    c.within (around d after left later) =
      ⟨c.passed ++ d.passed, c.rest ++ after, d.stop, c.own, left ++ c.trailing ++ later⟩ := by
  have shift : (around d after left later).shift = 0 := rfl
  simp only [Cursor.within, shift, Token.down_zero, Comment.down_zero, List.map_id]
  simp only [around, List.append_nil, List.nil_append]

/-- At its place, a specification is clear of comments that are left over from lines above and of those
of lines below. -/
theorem clear_around {d : Cursor} {after : List Token} {own left later : List Comment}
    (above : ∀ m ∈ left, m.pos.line ≤ n) (lines : ∀ m ∈ later, n + s.layout.stop.line < m.pos.line) :
    (around d after left later).Clear ((Cursor.ofLayout s.layout).placed n k own) := by
  have apart : ∀ line, 1 ≤ line → line ≤ s.layout.stop.line →
      (around d after left later).Apart (line + n) := by
    intro line first last
    refine ⟨List.forall_mem_nil _, fun m mem => ?_⟩
    rcases List.mem_append.1 mem with before | after
    · have passed := above m before
      omega
    · have below := lines m after
      omega
  have spans := spans_layout s
  refine ⟨rfl, List.forall_mem_nil _, fun t mem => ?_, ?_, fun _ _ => List.forall_mem_nil _⟩
  · obtain ⟨u, token, rfl⟩ := List.mem_map.1 mem
    exact apart _ (spans.tokens u token).1 (spans.tokens u token).2
  · exact apart _ spans.stop (Nat.le_refl _)

/-- A specification is read among others as at its place by itself. -/
theorem IsWritten.reads (h : s.IsWritten) {doc : Option CommentGroup} {spec : TypeSpec}
    {own later : List Comment} {after : List Token} {c d : Cursor}
    (run : typeStatement doc ((Cursor.ofLayout s.layout).placed n k own) = .ok (spec, c))
    (behind : c.rest = [])
    (below : d.Below n ((s.layout.placed n k).tokens ++ after) own
      ((Cursor.ofLayout s.layout).trailing.map (Comment.placed n k) ++ later))
    (lines : ∀ m ∈ later, n + s.layout.stop.line < m.pos.line) :
    ∃ d', typeStatement doc d = .ok (spec, d') ∧
      d'.Below (n + s.layout.stop.line) after own later := by
  obtain ⟨left, comments, above⟩ := below.trailing
  have cursor :
      ((Cursor.ofLayout s.layout).placed n k own).within (around d after left later) = d := by
    rw [within_around, List.append_assoc]
    show Cursor.mk d.passed ((s.layout.placed n k).tokens ++ after) d.stop own
      (left ++ ((Cursor.ofLayout s.layout).trailing.map (Comment.placed n k) ++ later)) = d
    rw [← below.rest, ← comments, ← below.own]
  have statement := typeStatement_isStatement doc
  have run' := statement.within run (clear_around above lines) (h.inside (around d after left later) own)
  have reaches := statement.forward run
  rw [cursor, within_around, behind] at run'
  refine ⟨_, run', below.ended, List.nil_append _, reaches.own, left ++ c.trailing, rfl, fun m mem => ?_⟩
  rcases List.mem_append.1 mem with before | claimed
  · exact Nat.le_trans (above m before) (Nat.le_add_right _ _)
  · obtain ⟨x, comment, rfl⟩ := List.mem_map.1 (reaches.trailing m claimed)
    have line := (s.spans_layout.comments x (Cursor.trailing_ofLayout x comment)).2.1
    show x.pos.line + n ≤ n + s.layout.stop.line
    omega

/-- A specification begins with a word. -/
theorem IsWritten.exists_word (h : s.IsWritten) : ∃ w : Lexeme, (∀ o, w ≠ .op o) ∧
    ∀ {c : Cursor} {n k : Nat} {after : List Token}, c.rest = (s.layout.placed n k).tokens ++ after →
      c.current.lexeme = w ∧ c.current.pos.line = n + 1 := by
  obtain ⟨word, items, cut⟩ := h.exists_items
  refine ⟨wordLexeme word, fun o => ?_, fun {c n k after} rest => ?_⟩
  · unfold wordLexeme
    split <;> exact Lexeme.noConfusion
  · rw [layout, cut] at rest
    rw [Cursor.current_of_rest rest]
    exact ⟨rfl, Nat.add_comm ..⟩

/-- Behind its own word `type`, a specification is a declaration. -/
theorem IsWritten.reads_declaration (h : s.IsWritten) {spec : TypeSpec} {own later : List Comment}
    {after : List Token} {c d : Cursor}
    (below : d.Below n (⟨.keyword .typeKw, ⟨n + 1, 1⟩, false⟩ :: (s.layout.placed n k).tokens ++ after)
      own ((Cursor.ofLayout s.layout).trailing.map (Comment.placed n k) ++ later))
    (run : typeStatement (d.docAbove (n + 1)) ((Cursor.ofLayout s.layout).placed n k own) =
      .ok (spec, c)) (behind : c.rest = [])
    (lines : ∀ m ∈ later, n + s.layout.stop.line < m.pos.line) :
    ∃ d', declaration d = .ok ([.typeSpec spec], d') ∧
      d'.Below (n + s.layout.stop.line) after own later := by
  obtain ⟨d', run', below'⟩ := h.reads run behind below.advance lines
  obtain ⟨w, word, stands⟩ := h.exists_word
  have here : d.current = ⟨.keyword .typeKw, ⟨n + 1, 1⟩, false⟩ := below.current
  have name : d.advance.current.lexeme ≠ .op .leftParen := by
    rw [(stands below.advance.rest).1]
    exact word _
  have passes : expect (.keyword .typeKw) d = .ok (d.current, d.advance) :=
    expect_of_ahead (congrArg (List.map Token.lexeme) below.rest)
  have decl : typeDecl d = .ok ([spec], d') := by
    rw [typeDecl, docHere_bind, bind_of_ok passes, isAt_bind, decide_eq_false name, here,
      if_neg Bool.false_ne_true]
    exact bind_eq_ok.2 ⟨spec, d', run', rfl⟩
  refine ⟨d', ?_, below'⟩
  rw [declaration, current_bind, here]
  exact bind_eq_ok.2 ⟨[spec], d', decl, rfl⟩

/-- In a group, a specification is an item. -/
theorem IsWritten.reads_groupItem (h : s.IsWritten) {spec : TypeSpec} {own later : List Comment}
    {after : List Token} {c d : Cursor}
    (below : d.Below n ((s.layout.placed n k).tokens ++ after) own
      ((Cursor.ofLayout s.layout).trailing.map (Comment.placed n k) ++ later))
    (run : typeStatement (d.docAbove (n + 1)) ((Cursor.ofLayout s.layout).placed n k own) =
      .ok (spec, c)) (behind : c.rest = [])
    (lines : ∀ m ∈ later, n + s.layout.stop.line < m.pos.line) :
    ∃ d', groupItem d = .ok (spec, d') ∧ d'.Below (n + s.layout.stop.line) after own later := by
  obtain ⟨d', run', below'⟩ := h.reads run behind below lines
  obtain ⟨w, -, stands⟩ := h.exists_word
  refine ⟨d', ?_, below'⟩
  rw [groupItem, docHere_bind, (stands below.rest).2]
  exact run'

/-- The first of the specifications ahead is read as a declaration of its own and, one line further down,
in a group; the others are ahead then. -/
theorem IsWritten.reads_both (h : s.IsWritten) {ss : List SpecText} {own own' : List Comment}
    (docs : ∀ line, Cursor.docRun (line + 1) own' = Cursor.docRun line own) {ending : List Token}
    {c d : Cursor} (first : c.Below n (tokens [.keyword .typeKw] 5 n (s :: ss)) own (trailing 5 n (s :: ss)))
    (second : d.Below (n + 1) (tokens [] k (n + 1) (s :: ss) ++ ending) own'
      (trailing k (n + 1) (s :: ss))) :
    (c.current.lexeme = .keyword .typeKw ∧ ∀ o, d.current.lexeme ≠ .op o) ∧
      ∃ spec c' d', declaration c = .ok ([.typeSpec spec], c') ∧ groupItem d = .ok (spec, d') ∧
        c'.Below (n + s.height) (tokens [.keyword .typeKw] 5 (n + s.height) ss) own
          (trailing 5 (n + s.height) ss) ∧
        d'.Below (n + s.height + 1) (tokens [] k (n + s.height + 1) ss ++ ending) own'
          (trailing k (n + s.height + 1) ss) := by
  let m := n + s.comments.length
  have above : n + 1 + s.comments.length = m + 1 := Nat.add_right_comm ..
  have height : m + s.layout.stop.line = n + s.height := Nat.add_assoc ..
  have height' : m + 1 + s.layout.stop.line = n + s.height + 1 := by omega
  have below : c.Below m _ own _ := first.mono (Nat.le_add_right ..)
  have below' : d.Below (m + 1) _ own' _ := second.mono (by omega)
  rw [tokens, trailing, List.append_assoc] at below
  rw [tokens, trailing, above, Nat.add_right_comm n 1, List.append_assoc] at below'
  obtain ⟨spec, e, e', run, run', behind, behind'⟩ :=
    h.reads_placed (c.docAbove (m + 1)) fun line =>
      show Cursor.docRun (line + (m + 1)) own' = Cursor.docRun (line + m) own from docs (line + m)
  have doc : d.docAbove (m + 1 + 1) = c.docAbove (m + 1) :=
    Cursor.docAbove_congr (by rw [below.own, below'.own, docs])
  obtain ⟨c', decl, rest⟩ := h.reads_declaration below run behind fun x mem => by
    rw [height]
    exact line_of_mem_trailing mem
  obtain ⟨d', item, rest'⟩ := h.reads_groupItem below' (doc ▸ run') behind' fun x mem => by
    rw [height']
    exact line_of_mem_trailing mem
  rw [height] at rest
  rw [height'] at rest'
  obtain ⟨w, word, stands⟩ := h.exists_word
  refine ⟨⟨congrArg Token.lexeme below.current, ?_⟩, spec, c', d', decl, item, rest, rest'⟩
  rw [(stands below'.rest).1]
  exact word

/-- The same specifications are read as declarations of their own and, one line further down, in a
group. -/
theorem reads_all {ss : List SpecText} (written : ∀ s ∈ ss, s.IsWritten) {own own' : List Comment}
    (docs : ∀ line, Cursor.docRun (line + 1) own' = Cursor.docRun line own) {ending : List Token}
    (closes : ending.map Token.lexeme = [.op .rightParen, .op .semicolon]) {c d : Cursor}
    (first : c.Below n (tokens [.keyword .typeKw] 5 n ss) own (trailing 5 n ss))
    (second : d.Below (n + 1) (tokens [] k (n + 1) ss ++ ending) own' (trailing k (n + 1) ss)) :
    ∃ specs c' d', itemsUntil .eof declaration (ss.length + 1) c =
        .ok (specs.map fun spec => [.typeSpec spec], c') ∧
      itemsUntil (.op .rightParen) groupItem (ss.length + 1) d = .ok (specs, d') ∧
      specs.length = ss.length ∧ d'.IsEnded ∧ d'.rest = ending := by
  induction ss generalizing n c d with
  | nil =>
    refine ⟨[], c, d, itemsUntil_nil ?_, itemsUntil_nil ?_, rfl, second.ended, second.rest⟩
    · rw [Cursor.current, first.rest]
      exact first.ended
    · exact Cursor.current_lexeme_of_ahead ((congrArg (List.map Token.lexeme) second.rest).trans closes)
  | cons s ss ih =>
    obtain ⟨here, others⟩ := List.forall_mem_cons.1 written
    obtain ⟨⟨typeWord, named⟩, spec, c₁, d₁, decl, item, first', second'⟩ :=
      here.reads_both docs first second
    obtain ⟨specs, c', d', decls, items, length, ended, rest⟩ := ih others first' second'
    refine ⟨spec :: specs, c', d', itemsUntil_cons ?_ ?_ decl decls,
      itemsUntil_cons (named _) (named _) item items, congrArg (· + 1) length, ended, rest⟩
    · rw [typeWord]
      exact Lexeme.noConfusion
    · rw [typeWord]
      exact Lexeme.noConfusion

/-! ## Whole sources -/

/-- There are no fewer tokens than specifications. -/
theorem length_le_tokens {ss : List SpecText} (written : ∀ s ∈ ss, s.IsWritten) (ws : List Lexeme)
    (columns n : Nat) : ss.length ≤ (tokens ws columns n ss).length := by
  induction ss generalizing n with
  | nil => exact Nat.zero_le _
  | cons s ss ih =>
    obtain ⟨here, others⟩ := List.forall_mem_cons.1 written
    have some : 0 < s.layout.tokens.length := by
      obtain ⟨word, items, cut⟩ := here.exists_items
      rw [layout, cut]
      exact Nat.succ_pos _
    have further := ih others (n + s.height)
    rw [tokens, List.length_append, List.length_append, Layout.placed, List.length_map, List.length_cons]
    omega

/-- A group in parentheses declares its items. -/
theorem reads_group {specs : List TypeSpec} {ws : List Lexeme} {n : Nat} {c d : Cursor}
    (opens : c.ahead = .keyword .typeKw :: .op .leftParen :: ws)
    (items : itemsUntil (.op .rightParen) groupItem n c.advance.advance = .ok (specs, d))
    (le : n ≤ c.advance.advance.rest.length + 1)
    (closes : d.ahead = [.op .rightParen, .op .semicolon]) :
    declaration c = .ok (specs.map .typeSpec, d.advance.advance) ∧ d.advance.advance.ahead = [] := by
  have word : c.current.lexeme = .keyword .typeKw := Cursor.current_lexeme_of_ahead opens
  have paren : c.advance.current.lexeme = .op .leftParen :=
    Cursor.current_lexeme_of_ahead (Cursor.ahead_advance opens)
  have behind : d.advance.ahead = [.op .semicolon] := Cursor.ahead_advance closes
  have ends : endStatement d.advance = .ok ((), d.advance.advance) := by
    rw [endStatement, current_bind, Cursor.current_lexeme_of_ahead behind]
    rfl
  have decl : typeDecl c = .ok (specs, d.advance.advance) := by
    rw [typeDecl, docHere_bind, bind_of_ok (expect_of_ahead opens), isAt_bind, decide_eq_true paren,
      if_pos rfl, advance_bind]
    exact bind_eq_ok.2 ⟨specs, d, itemsUntil_mono le items,
      bind_eq_ok.2 ⟨_, _, expect_of_ahead closes, bind_eq_ok.2 ⟨(), _, ends, rfl⟩⟩⟩
  refine ⟨?_, Cursor.ahead_advance behind⟩
  rw [declaration, current_bind, word]
  exact bind_eq_ok.2 ⟨specs, _, decl, rfl⟩

theorem not_opensPackage_nil : ¬opensPackage [] := fun opens => by cases opens

theorem not_opensPackage_type (ws : List Lexeme) : ¬opensPackage (.keyword .typeKw :: ws) := by
  intro opens
  rw [opensPackage, List.dropWhile_cons_of_neg (by simp)] at opens
  cases opens

/-- A file whose declarations are read, and which does not begin with a package clause. -/
theorem parse_of_declarations {source : String} {l : Layout} {decls : List (List Decl)} {c : Cursor}
    {n : Nat} (scanned : Layout.ofSource source = .ok l) (plain : ¬opensPackage (Cursor.ofLayout l).ahead)
    (run : itemsUntil .eof declaration n (.ofLayout l) = .ok (decls, c))
    (le : n ≤ l.tokens.length + 1) : File.parse source = .ok ⟨"", decls.flatten⟩ := by
  refine run_eq_ok.2 ⟨l, c, scanned, ?_⟩
  rw [file_of_not_opensPackage (Cursor.isEnded_ofLayout _) plain]
  exact bind_eq_ok.2 ⟨decls, c, itemsUntil_mono le run, rfl⟩

/-- In a source of declarations, all specifications are ahead, each behind its word `type`. -/
theorem exists_separately {ss : List SpecText} (written : ∀ s ∈ ss, s.IsWritten) :
    ∃ l, Layout.ofSource (separately ss) = .ok l ∧
      (Cursor.ofLayout l).Below 0 (tokens [.keyword .typeKw] 5 0 ss)
        ((commentsOf 0 5 0 ss).filter Comment.ownLine).reverse (trailing 5 0 ss) := by
  obtain ⟨l, scanned, ahead, comments⟩ := ofSource_separately written
  refine ⟨l, scanned, rfl, ahead, by rw [← comments]; rfl, [], ?_, List.forall_mem_nil _⟩
  rw [← filter_commentsOf 0, ← comments]
  rfl

/-- In a source of one group, all specifications are ahead, between the parentheses. -/
theorem exists_inGroup {ss : List SpecText} (written : ∀ s ∈ ss, s.IsWritten) {margin : String}
    (blank : margin.toList.all isSpacing = true) :
    ∃ l ending, Layout.ofSource (inGroup margin ss) = .ok l ∧
      ending.map Token.lexeme = [.op .rightParen, .op .semicolon] ∧
      (Cursor.ofLayout l).Below 1 (⟨.keyword .typeKw, ⟨1, 1⟩, false⟩ ::
          ⟨.op .leftParen, ⟨1, 6⟩, false⟩ :: (tokens [] margin.length 1 ss ++ ending))
        ((commentsOf margin.length margin.length 1 ss).filter Comment.ownLine).reverse
        (trailing margin.length 1 ss) := by
  obtain ⟨l, ending, scanned, ahead, closes, comments⟩ :=
    ofSource_inGroup written (List.all_eq_true.1 blank)
  refine ⟨l, ending, scanned, closes, rfl, ahead, by rw [← comments]; rfl, [], ?_,
    List.forall_mem_nil _⟩
  rw [← filter_commentsOf margin.length, ← comments]
  rfl

/-- A source of declarations, each of one type. -/
theorem parse_of_separate {ss : List SpecText} {specs : List TypeSpec} {source : String} {l : Layout}
    {columns : Nat} {c : Cursor} (written : ∀ s ∈ ss, s.IsWritten)
    (scanned : Layout.ofSource source = .ok l)
    (ahead : (Cursor.ofLayout l).rest = tokens [.keyword .typeKw] columns 0 ss)
    (decls : itemsUntil .eof declaration (ss.length + 1) (.ofLayout l) =
      .ok (specs.map fun spec => [.typeSpec spec], c)) :
    File.parse source = .ok ⟨"", specs.map .typeSpec⟩ := by
  have plain : ¬opensPackage (Cursor.ofLayout l).ahead := by
    rw [Cursor.ahead, ahead]
    cases ss with
    | nil => exact not_opensPackage_nil
    | cons s ss => exact not_opensPackage_type _
  have enough : ss.length ≤ (Cursor.ofLayout l).rest.length := by
    rw [ahead]
    exact length_le_tokens written ..
  rw [parse_of_declarations scanned plain decls (Nat.succ_le_succ enough), ← List.flatMap_def,
    List.map_eq_flatMap]

/-- A source of one declaration, a group. -/
theorem parse_of_group {specs : List TypeSpec} {source : String} {l : Layout} {ws : List Lexeme}
    {n : Nat} {d : Cursor} (scanned : Layout.ofSource source = .ok l)
    (opens : (Cursor.ofLayout l).ahead = .keyword .typeKw :: .op .leftParen :: ws)
    (items : itemsUntil (.op .rightParen) groupItem n (Cursor.ofLayout l).advance.advance =
      .ok (specs, d))
    (le : n ≤ (Cursor.ofLayout l).advance.advance.rest.length + 1) (ended : d.IsEnded)
    (closes : d.ahead = [.op .rightParen, .op .semicolon]) :
    File.parse source = .ok ⟨"", specs.map .typeSpec⟩ := by
  obtain ⟨group, behind⟩ := reads_group opens items le closes
  have word : (Cursor.ofLayout l).current.lexeme = .keyword .typeKw :=
    Cursor.current_lexeme_of_ahead opens
  have one : itemsUntil .eof declaration 2 (.ofLayout l) =
      .ok ([specs.map .typeSpec], d.advance.advance) := by
    refine itemsUntil_cons ?_ ?_ group (itemsUntil_nil ?_)
    · rw [word]
      exact Lexeme.noConfusion
    · rw [word]
      exact Lexeme.noConfusion
    · rw [Cursor.current_lexeme, behind]
      exact ended
  have enough : 2 ≤ l.tokens.length + 1 := by
    have length := congrArg List.length opens
    rw [Cursor.ahead, List.length_map] at length
    show 2 ≤ (Cursor.ofLayout l).rest.length + 1
    rw [length]
    exact Nat.succ_le_succ (Nat.succ_pos _)
  rw [parse_of_declarations scanned (opens ▸ not_opensPackage_type _) one enough,
    List.flatten_singleton]

end SpecText

open Typings.Parser SpecText in
/-- A group of type specifications, each on lines of its own below lines of comments, declares the same
as its specifications do one by one below the same comments: the same types with the same comments. -/
theorem File.parse_inGroup {ss : List SpecText} (written : ∀ s ∈ ss, s.IsWritten) {margin : String}
    (blank : margin.toList.all isSpacing = true) :
    ∃ specs : List TypeSpec, specs.length = ss.length ∧
      File.parse (separately ss) = .ok ⟨"", specs.map .typeSpec⟩ ∧
      File.parse (inGroup margin ss) = .ok ⟨"", specs.map .typeSpec⟩ := by
  obtain ⟨l, scanned, first⟩ := exists_separately written
  obtain ⟨l', ending, scanned', closes, second⟩ := exists_inGroup written blank
  have docs := docRun_inGroup 0 5 margin.length margin.length ss
  have inside := second.advance.advance
  obtain ⟨specs, c, d, decls, items, length, ended, rest⟩ := reads_all written docs closes first inside
  have opens : (Cursor.ofLayout l').ahead = .keyword .typeKw :: .op .leftParen ::
      (tokens [] margin.length 1 ss ++ ending).map Token.lexeme :=
    congrArg (List.map Token.lexeme) second.rest
  have enough : ss.length ≤ (Cursor.ofLayout l').advance.advance.rest.length := by
    have some : ss.length ≤ (tokens [] margin.length 1 ss).length := length_le_tokens written ..
    rw [inside.rest, List.length_append]
    omega
  have behind : d.ahead = [.op .rightParen, .op .semicolon] :=
    (congrArg (List.map Token.lexeme) rest).trans closes
  exact ⟨specs, length, parse_of_separate written scanned first.rest decls,
    parse_of_group scanned' opens items (Nat.succ_le_succ enough) ended behind⟩

open SpecText in
/-- A struct with comments of its own, an alias, and a generic type below two lines of comments. -/
theorem File.parse_inGroup_shop :
    let ss : List SpecText := [⟨["// What is sold."], "Item struct \x7b\n  Name string // as shown\n\x7d"⟩,
      ⟨[], "Price = float64 // in cents"⟩, ⟨["// All that", "// is bought."], "Cart[T any] []T"⟩]
    (∀ s ∈ ss, s.IsWritten) ∧
      separately ss = "// What is sold.\ntype Item struct \x7b\n  Name string // as shown\n\x7d\n" ++
        "type Price = float64 // in cents\n// All that\n// is bought.\ntype Cart[T any] []T\n" ∧
      inGroup "\t" ss = "type (\n\t// What is sold.\n\tItem struct \x7b\n  Name string // as shown\n\x7d\n" ++
        "\tPrice = float64 // in cents\n\t// All that\n\t// is bought.\n\tCart[T any] []T\n)" ∧
      ∃ specs : List TypeSpec, specs.length = 3 ∧
        File.parse (separately ss) = .ok ⟨"", specs.map .typeSpec⟩ ∧
        File.parse (inGroup "\t" ss) = .ok ⟨"", specs.map .typeSpec⟩ := by
  intro ss
  have written : ∀ s ∈ ss, s.IsWritten := by decide +kernel
  exact ⟨written, by decide +kernel, by decide +kernel, File.parse_inGroup written rfl⟩

end Typings
