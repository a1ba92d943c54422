import Typings.Decl.Parser
import Typings.Proofs.LineEnds.Layouts

/-!
# Cursors with carriage returns

Two cursors that are made of pairs show the same lexemes, literals apart, and have comments that say the
same at the same places (`CursorPair`). They move alike, looks ahead of them agree, and so do the comments
above a line and behind a token.
-/

namespace Typings

/-! ## Lexemes -/

namespace Lexeme

/-- A literal. -/
def isLiteral : Lexeme → Bool
  | .literal _ _ => true
  | _ => false

/-- What depends on what shows of a lexeme. -/
theorem congr_seen {β : Type} {f : Lexeme → β} {w w' : Lexeme} (shows : ∀ w : Lexeme, f w.seen = f w)
    (seen : w'.seen = w.seen) : f w' = f w := by
  rw [← shows, seen, shows]

/-- Lexemes that show the same are the same, or literals of one kind. -/
theorem eq_or_literal {w w' : Lexeme} (seen : w'.seen = w.seen) :
    w' = w ∨ ∃ kind text text', w = .literal kind text ∧ w' = .literal kind text' := by
  cases w with
  | literal kind text =>
    cases w' with
    | literal kind' text' =>
      cases seen
      exact .inr ⟨kind, text, text', rfl, rfl⟩
    | _ => cases seen
  | _ => cases w' <;> first | exact .inl seen | cases seen

/-- A lexeme that is not a literal is told from all others. -/
theorem eq_iff_of_seen {v w w' : Lexeme} (plain : v.isLiteral = false) (seen : w'.seen = w.seen) :
    w' = v ↔ w = v := by
  rcases eq_or_literal seen with same | ⟨kind, text, text', first, second⟩
  · rw [same]
  · have literal : ∀ text, Lexeme.literal kind text ≠ v := by
      rintro text rfl
      cases plain
    rw [first, second]
    exact iff_of_false (literal text') (literal text)

theorem isIdent_seen (w : Lexeme) : w.seen.isIdent = w.isIdent := by cases w <;> rfl

theorem isString_seen (w : Lexeme) : w.seen.isString = w.isString := by
  rcases w with _ | _ | ⟨kind, text⟩ | _ | _
  case literal => cases kind <;> rfl
  all_goals rfl

theorem startsType_seen (w : Lexeme) : w.seen.startsType = w.startsType := by cases w <;> rfl

theorem continuesLength_seen (w : Lexeme) :
    Parser.continuesLength w.seen = Parser.continuesLength w := by cases w <;> rfl

end Lexeme

namespace TokenPair

variable {ms : List Comment}

/-- A test that does not look into literals gives the same on both tokens of a pair. -/
theorem congr {β : Type} {f : Lexeme → β} (shows : ∀ w : Lexeme, f w.seen = f w) (t : TokenPair ms) :
    f t.snd.lexeme = f t.fst.lexeme := Lexeme.congr_seen shows t.seen

/-- No text of a literal tells the tokens of a pair apart as any other token. -/
theorem eq_iff {w : Lexeme} (plain : w.isLiteral = false) (t : TokenPair ms) :
    t.snd.lexeme = w ↔ t.fst.lexeme = w := Lexeme.eq_iff_of_seen plain t.seen

end TokenPair

/-! ## Pairs of cursors -/

/-- Two cursors that are made of pairs. -/
structure CursorPair (ms : List Comment) where
  passed : List (TokenPair ms)
  rest : List (TokenPair ms)
  stop : TokenPair ms
  own : List (CommentPair ms)
  trailing : List (CommentPair ms)

namespace CursorPair

variable {ms : List Comment}

/-- The first cursor. -/
def fst (d : CursorPair ms) : Cursor where
  passed := d.passed.map TokenPair.fst
  rest := d.rest.map TokenPair.fst
  stop := d.stop.fst
  own := d.own.map CommentPair.fst
  trailing := d.trailing.map CommentPair.fst

/-- The second cursor. -/
def snd (d : CursorPair ms) : Cursor where
  passed := d.passed.map TokenPair.snd
  rest := d.rest.map TokenPair.snd
  stop := d.stop.snd
  own := d.own.map CommentPair.snd
  trailing := d.trailing.map CommentPair.snd

/-- The tokens at both cursors. -/
def current (d : CursorPair ms) : TokenPair ms := d.rest.headD d.stop

/-- The tokens some places ahead of both. -/
def peek (d : CursorPair ms) (n : Nat) : TokenPair ms := d.rest.getD n d.stop

/-- The tokens just passed. -/
def prev (d : CursorPair ms) : TokenPair ms := d.passed.headD d.stop

/-- Both cursors so many tokens further. -/
def pass (d : CursorPair ms) (n : Nat) : CursorPair ms :=
  { d with passed := (d.rest.take n).reverse ++ d.passed, rest := d.rest.drop n }

theorem headD_map {α β : Type} (f : α → β) (xs : List α) (x : α) :
    (xs.map f).headD (f x) = f (xs.headD x) := by
  cases xs <;> rfl

theorem getD_map {α β : Type} (f : α → β) (xs : List α) (n : Nat) (x : α) :
    (xs.map f).getD n (f x) = f (xs.getD n x) := by
  rw [List.getD_eq_getElem?_getD, List.getD_eq_getElem?_getD, List.getElem?_map, Option.getD_map]

/-- The current token of the first run is the first of the current pair. -/
theorem fst_current (d : CursorPair ms) : d.fst.current = d.current.fst := headD_map _ _ _

/-- The current token of the second run is the second of the current pair. -/
theorem snd_current (d : CursorPair ms) : d.snd.current = d.current.snd := headD_map _ _ _

theorem fst_peek (d : CursorPair ms) (n : Nat) : d.fst.peek n = (d.peek n).fst := getD_map _ _ _ _

theorem snd_peek (d : CursorPair ms) (n : Nat) : d.snd.peek n = (d.peek n).snd := getD_map _ _ _ _

theorem fst_prev (d : CursorPair ms) : d.fst.prev = d.prev.fst := headD_map _ _ _

theorem snd_prev (d : CursorPair ms) : d.snd.prev = d.prev.snd := headD_map _ _ _

theorem fst_pass (d : CursorPair ms) (n : Nat) : (d.pass n).fst = d.fst.pass n := by
  simp [pass, fst, Cursor.pass]

theorem snd_pass (d : CursorPair ms) (n : Nat) : (d.pass n).snd = d.snd.pass n := by
  simp [pass, snd, Cursor.pass]

theorem length_rest (d : CursorPair ms) : d.snd.rest.length = d.fst.rest.length := by
  simp [fst, snd]

/-- The tokens at the two cursors show the same. -/
theorem seen (d : CursorPair ms) : d.snd.current.lexeme.seen = d.fst.current.lexeme.seen := by
  rw [fst_current, snd_current]
  exact d.current.seen

/-- Both runs stand at a token other than a literal, or neither does. -/
theorem current_eq_iff (d : CursorPair ms) {w : Lexeme} (plain : w.isLiteral = false) :
    d.snd.current.lexeme = w ↔ d.fst.current.lexeme = w := Lexeme.eq_iff_of_seen plain d.seen

/-- The current tokens stand in lines of the same number. -/
theorem current_line (d : CursorPair ms) : d.snd.current.pos.line = d.fst.current.pos.line := by
  rw [fst_current, snd_current]
  exact d.current.pos.line

theorem current_isIdent (d : CursorPair ms) :
    d.snd.current.lexeme.isIdent = d.fst.current.lexeme.isIdent := by
  rw [fst_current, snd_current]
  exact d.current.congr Lexeme.isIdent_seen

/-- A test that does not look into literals gives the same on the tokens ahead. -/
theorem peek_congr {β : Type} {f : Lexeme → β} (shows : ∀ w : Lexeme, f w.seen = f w)
    (d : CursorPair ms) (n : Nat) : f (d.snd.peek n).lexeme = f (d.fst.peek n).lexeme := by
  rw [fst_peek, snd_peek]
  exact (d.peek n).congr shows

theorem peek_eq_iff (d : CursorPair ms) (n : Nat) {w : Lexeme} (plain : w.isLiteral = false) :
    (d.snd.peek n).lexeme = w ↔ (d.fst.peek n).lexeme = w := by
  rw [fst_peek, snd_peek]
  exact (d.peek n).eq_iff plain

/-! ### Semicolons -/

/-- A test of lexemes that does not see the characters of literals goes as far in both. -/
theorem length_takeWhile {p : Token → Bool} (shows : ∀ t : TokenPair ms, p t.snd = p t.fst)
    (ts : List (TokenPair ms)) :
    ((ts.map TokenPair.snd).takeWhile p).length = ((ts.map TokenPair.fst).takeWhile p).length := by
  have same : p ∘ TokenPair.snd = p ∘ @TokenPair.fst ms := funext shows
  rw [List.takeWhile_map, List.takeWhile_map, List.length_map, List.length_map, same]

/-- Both cursors behind the semicolons ahead. -/
theorem exists_passSemis (d : CursorPair ms) :
    ∃ d' : CursorPair ms, d'.fst = d.fst.passSemis ∧ d'.snd = d.snd.passSemis := by
  refine ⟨d.pass (d.fst.rest.takeWhile fun t => t.lexeme = .op .semicolon).length, d.fst_pass _, ?_⟩
  have same : (d.snd.rest.takeWhile fun t => t.lexeme = .op .semicolon).length =
      (d.fst.rest.takeWhile fun t => t.lexeme = .op .semicolon).length :=
    length_takeWhile (fun t => decide_eq_decide.2 (t.eq_iff rfl)) d.rest
  rw [Cursor.passSemis, same]
  exact d.snd_pass _

/-! ### Looks ahead -/

/-- The search for the end of the brackets takes the same steps in both runs. -/
theorem closesBeforeType_map (stop : TokenPair ms) (depth : Int) (ts : List (TokenPair ms)) :
    Cursor.closesBeforeType stop.snd depth (ts.map TokenPair.snd) =
      Cursor.closesBeforeType stop.fst depth (ts.map TokenPair.fst) := by
  induction ts generalizing depth with
  | nil => rfl
  | cons t ts ih =>
    rw [List.map_cons, List.map_cons, Cursor.closesBeforeType, Cursor.closesBeforeType]
    have behind : ((ts.map TokenPair.snd).headD stop.snd).lexeme.startsType =
        ((ts.map TokenPair.fst).headD stop.fst).lexeme.startsType := by
      rw [headD_map, headD_map]
      exact (ts.headD stop).congr Lexeme.startsType_seen
    rcases Lexeme.eq_or_literal t.seen with same | ⟨kind, text, text', first, second⟩
    · rw [same, ih, ih, ih, behind]
    · rw [first, second]
      exact ih depth

/-- Both runs find a type behind the brackets, or neither does. -/
theorem closesAtType (d : CursorPair ms) (n : Nat) : d.snd.closesAtType n = d.fst.closesAtType n := by
  rw [Cursor.closesAtType, Cursor.closesAtType, snd, fst, ← List.map_drop, ← List.map_drop]
  exact closesBeforeType_map d.stop 0 (d.rest.drop n)

/-- Both runs are at an array behind a name, or neither is. -/
theorem showsNamedArray (d : CursorPair ms) : d.snd.showsNamedArray = d.fst.showsNamedArray := by
  rw [Cursor.showsNamedArray, Cursor.showsNamedArray, d.current_isIdent, d.closesAtType,
    decide_eq_decide.2 (d.peek_eq_iff 1 rfl)]

/-- Both runs are at the name of a field, or neither is. -/
theorem showsFieldName (d : CursorPair ms) : d.snd.showsFieldName = d.fst.showsFieldName := by
  rw [Cursor.showsFieldName, Cursor.showsFieldName, d.current_isIdent, d.closesAtType]
  refine congrArg (d.fst.current.lexeme.isIdent && ·) ?_
  rw [fst_peek, snd_peek]
  rcases Lexeme.eq_or_literal (d.peek 1).seen with same | ⟨kind, text, text', first, second⟩
  · rw [same]
  · rw [first, second]
    cases kind <;> rfl

/-- Both runs are at type arguments, or neither is. -/
theorem showsTypeArgs (d : CursorPair ms) : d.snd.showsTypeArgs = d.fst.showsTypeArgs := by
  rw [Cursor.showsTypeArgs, Cursor.showsTypeArgs, decide_eq_decide.2 (d.current_eq_iff rfl),
    decide_eq_decide.2 (not_congr (d.peek_eq_iff 1 rfl))]

/-- Both runs are at a method, or neither is. -/
theorem showsMethod (d : CursorPair ms) : d.snd.showsMethod = d.fst.showsMethod := by
  rw [Cursor.showsMethod, Cursor.showsMethod, d.current_isIdent,
    decide_eq_decide.2 (d.peek_eq_iff 1 rfl)]

/-- Both runs are at type parameters, or neither is. -/
theorem showsTypeParams (d : CursorPair ms) :
    Parser.showsTypeParams d.snd = Parser.showsTypeParams d.fst := by
  rw [Parser.showsTypeParams, Parser.showsTypeParams, decide_eq_decide.2 (d.current_eq_iff rfl),
    d.peek_congr Lexeme.isIdent_seen, d.peek_congr Lexeme.continuesLength_seen]

/-! ### Comments -/

/-- The comments of a run say the same in both sources. -/
theorem flatMap_said_docRun (line : Nat) (own : List (CommentPair ms)) :
    (Cursor.docRun line (own.map CommentPair.snd)).flatMap said =
      (Cursor.docRun line (own.map CommentPair.fst)).flatMap said := by
  induction own generalizing line with
  | nil => rfl
  | cons m own ih =>
    rw [List.map_cons, List.map_cons, Cursor.docRun, Cursor.docRun, m.endLine, m.pos]
    split
    · rw [List.flatMap_append, List.flatMap_append, ih, List.flatMap_singleton,
        List.flatMap_singleton, m.said]
    · exact ih line

/-- There are comments above in both sources or in neither. -/
theorem docRun_isEmpty (line : Nat) (own : List (CommentPair ms)) :
    (Cursor.docRun line (own.map CommentPair.snd)).isEmpty =
      (Cursor.docRun line (own.map CommentPair.fst)).isEmpty := by
  induction own generalizing line with
  | nil => rfl
  | cons m own ih =>
    rw [List.map_cons, List.map_cons, Cursor.docRun, Cursor.docRun, m.endLine, m.pos]
    split
    · rw [List.isEmpty_eq_false_iff.2 (List.append_ne_nil_of_right_ne_nil _ (List.cons_ne_nil _ _)),
        List.isEmpty_eq_false_iff.2 (List.append_ne_nil_of_right_ne_nil _ (List.cons_ne_nil _ _))]
    · exact ih line

/-- The comments above a line say the same. -/
theorem docAbove (d : CursorPair ms) (line : Nat) :
    (d.snd.docAbove line).map CommentGroup.plain = (d.fst.docAbove line).map CommentGroup.plain := by
  have told := flatMap_said_docRun line d.own
  have empty := docRun_isEmpty line d.own
  rw [Cursor.docAbove, Cursor.docAbove, snd, fst]
  generalize Cursor.docRun line (d.own.map CommentPair.fst) = texts at told empty ⊢
  generalize Cursor.docRun line (d.own.map CommentPair.snd) = texts' at told empty ⊢
  cases texts with
  | nil => rw [List.isEmpty_iff.1 empty]
  | cons text texts =>
    cases texts' with
    | nil => cases empty
    | cons text' texts' => exact congrArg some (CommentGroup.plain_congr told)

/-- A comment is behind the token just passed in both, or in neither. -/
theorem trails (d : CursorPair ms) (m : CommentPair ms) : d.snd.trails m.snd = d.fst.trails m.fst := by
  rw [Cursor.trails, Cursor.trails, fst_prev, snd_prev, fst_current, snd_current, m.pos,
    d.prev.pos.line, d.current.pos.line]
  by_cases here : m.fst.pos.line = d.prev.fst.pos.line
  · have behind := d.prev.pos.before_iff m.fst m.mem here
    by_cases next : d.current.fst.pos.line = d.prev.fst.pos.line
    · have before := d.current.pos.behind_iff m.fst m.mem (here.trans next.symm)
      rw [decide_eq_decide.2 behind, decide_eq_decide.2 before]
    · rw [decide_eq_decide.2 behind, decide_eq_true next]
      rfl
  · rw [decide_eq_false here]
    rfl

/-- The same comments are behind the last token. -/
theorem trails_comp (d : CursorPair ms) :
    d.snd.trails ∘ CommentPair.snd = d.fst.trails ∘ @CommentPair.fst ms := funext d.trails

/-- The comments behind the token just passed say the same. -/
theorem commentBehind (d : CursorPair ms) :
    d.snd.commentBehind.map CommentGroup.plain = d.fst.commentBehind.map CommentGroup.plain := by
  have found : ∀ (c : Cursor) (f : CommentPair ms → Comment), c.trailing = d.trailing.map f →
      c.commentBehind = (d.trailing.find? (c.trails ∘ f)).map fun m => ⟨[(f m).text]⟩ := by
    intro c f trailing
    rw [Cursor.commentBehind, trailing, List.find?_map, Option.map_map]
    rfl
  rw [found d.snd CommentPair.snd rfl, found d.fst CommentPair.fst rfl, trails_comp]
  cases d.trailing.find? (d.fst.trails ∘ CommentPair.fst) with
  | none => rfl
  | some m =>
    refine congrArg some (CommentGroup.plain_congr ?_)
    rw [List.flatMap_singleton, List.flatMap_singleton, m.said]

/-- Both cursors without the comment behind the token just passed. -/
theorem exists_dropCommentBehind (d : CursorPair ms) :
    ∃ d' : CursorPair ms, d'.fst = d.fst.dropCommentBehind ∧ d'.snd = d.snd.dropCommentBehind := by
  refine ⟨{ d with trailing := d.trailing.eraseP (d.fst.trails ∘ CommentPair.fst) }, ?_, ?_⟩
  · rw [Cursor.dropCommentBehind, show d.fst.trailing = d.trailing.map CommentPair.fst from rfl,
      List.eraseP_map]
    rfl
  · rw [Cursor.dropCommentBehind, show d.snd.trailing = d.trailing.map CommentPair.snd from rfl,
      List.eraseP_map, trails_comp]
    rfl

end CursorPair

namespace LayoutPair

variable {ms : List Comment}

/-- The tokens that end both sources. -/
def last (d : LayoutPair ms) : TokenPair ms := ⟨d.fst.last, d.snd.last, rfl, .refl ms d.stop⟩

/-- The cursors at the starts of two sources whose layouts are a pair. -/
theorem exists_cursorPair (d : LayoutPair ms) :
    ∃ c : CursorPair ms, c.fst = .ofLayout d.fst ∧ c.snd = .ofLayout d.snd := by
  have own : Comment.ownLine ∘ CommentPair.snd = Comment.ownLine ∘ @CommentPair.fst ms :=
    funext CommentPair.ownLine
  have trailing : (fun c : Comment => !c.ownLine) ∘ CommentPair.snd =
      (fun c : Comment => !c.ownLine) ∘ @CommentPair.fst ms :=
    funext fun m => congrArg not m.ownLine
  refine ⟨⟨[], d.tokens, d.last, (d.comments.filter (Comment.ownLine ∘ CommentPair.fst)).reverse,
    d.comments.filter ((fun c : Comment => !c.ownLine) ∘ CommentPair.fst)⟩, ?_, ?_⟩
  · rw [Cursor.ofLayout, Cursor.ofTokens, fst, List.filter_map, List.filter_map, ← List.map_reverse]
    rfl
  · rw [Cursor.ofLayout, Cursor.ofTokens, snd, List.filter_map, List.filter_map, ← List.map_reverse,
      own, trailing]
    rfl

end LayoutPair

end Typings
