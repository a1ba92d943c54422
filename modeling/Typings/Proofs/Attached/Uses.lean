import Typings.Proofs.Attached.Remarks
import Typings.Proofs.Parser.Steps

/-!
# What parsers do with comments

A parser uses comments in two ways: it looks up those above the token where something starts, which
stay where they are, and it claims one behind something, which is then gone. `p.Attaches strict before
remarks` says of a parser which comments it uses and that what it gives has no other remarks than those
that were there `before` and those that it makes of the comments. If it is `strict`, then nothing that it
looks up stands above the first token that it passes. It is closed under all ways to put parsers together.
-/

namespace Typings

/-! ## Uses of comments -/

/-- The comments of the run that ends on the line above the given one, of comments on lines of their own
with the latest first. -/
def docComments (line : Nat) : List Comment → List Comment
  | [] => []
  | m :: ms =>
    if m.endLine + 1 = line then docComments m.pos.line ms ++ [m] else docComments line ms

/-- Looking up the comments above the token where something starts, or claiming one behind it. -/
inductive Use where
  | above (start : Token)
  | behind (comment : Comment)

namespace Use

/-- The comments that are used, given those on lines of their own with the latest first. -/
def comments (own : List Comment) : Use → List Comment
  | above start => docComments start.pos.line own
  | behind comment => [comment]

/-- The remark that is made of the comments, unless there are none. -/
def remark? (own : List Comment) : Use → Option Remark
  | above start =>
    match docComments start.pos.line own with
    | [] => none
    | m :: ms => some (.doc ⟨(m :: ms).map Comment.text⟩)
  | behind comment => some (.note ⟨[comment.text]⟩)

/-- The token above which comments are looked up. -/
def start? : Use → Option Token
  | above start => some start
  | behind _ => none

/-- The comment that is claimed. -/
def claimed? : Use → Option Comment
  | above _ => none
  | behind comment => some comment

end Use

/-- The tokens above which comments are looked up. -/
def startsOf (uses : List Use) : List Token := uses.filterMap Use.start?

/-- The comments that are claimed. -/
def claimedBy (uses : List Use) : List Comment := uses.filterMap Use.claimed?

/-- The remarks that are made. -/
def remarksBy (own : List Comment) (uses : List Use) : List Remark := uses.filterMap (Use.remark? own)

theorem startsOf_append (us vs : List Use) : startsOf (us ++ vs) = startsOf us ++ startsOf vs :=
  List.filterMap_append

theorem claimedBy_append (us vs : List Use) : claimedBy (us ++ vs) = claimedBy us ++ claimedBy vs :=
  List.filterMap_append

theorem remarksBy_append (own : List Comment) (us vs : List Use) :
    remarksBy own (us ++ vs) = remarksBy own us ++ remarksBy own vs := List.filterMap_append

/-- A run consists of the texts of its comments. -/
theorem docRun_eq_map (line : Nat) (ms : List Comment) :
    Cursor.docRun line ms = (docComments line ms).map Comment.text := by
  induction ms generalizing line with
  | nil => rfl
  | cons m ms ih =>
    rw [Cursor.docRun, docComments]
    split
    · rw [ih, List.map_append]
      rfl
    · exact ih line

/-- Looking up comments makes the remark that the parser gives. -/
theorem ofDoc_docAbove (c : Cursor) (start : Token) :
    Remark.ofDoc (c.docAbove start.pos.line) = remarksBy c.own [.above start] := by
  rw [Cursor.docAbove, docRun_eq_map, remarksBy, List.filterMap_cons, Use.remark?]
  cases docComments start.pos.line c.own <;> rfl

namespace Cursor

variable {c c' c'' : Cursor} {strict : Bool} {us vs : List Use}

/-- On the way from one cursor to another, comments are used. Each is looked up above a token of its own
among those that are passed, which is not the first of them if the way is strict; and each comment that is
claimed is then gone. -/
structure Spends (c : Cursor) (strict : Bool) (uses : List Use) (c' : Cursor) : Prop where
  tokens : ∃ ts, c.rest = ts ++ c'.rest ∧ (strict = true → ts ≠ []) ∧
    (startsOf uses).Sublist (if strict then ts.tail else ts)
  stop : c'.stop = c.stop
  own : c'.own = c.own
  trailing : (claimedBy uses ++ c'.trailing).Perm c.trailing

namespace Spends

/-- Where nothing is passed, nothing is spent. -/
theorem refl (c : Cursor) : c.Spends false [] c where
  tokens := ⟨[], rfl, fun h => absurd h Bool.false_ne_true, List.nil_sublist _⟩
  stop := rfl
  own := rfl
  trailing := .refl _

/-- To pass tokens spends no comment. -/
theorem pass (c : Cursor) (n : Nat) : c.Spends false [] (c.pass n) where
  tokens := ⟨c.rest.take n, (List.take_append_drop n c.rest).symm,
    fun h => absurd h Bool.false_ne_true, List.nil_sublist _⟩
  stop := rfl
  own := rfl
  trailing := .refl _

/-- A cursor that is at the end of the source stays there. -/
theorem isEnded (h : c.Spends strict us c') (ended : c.IsEnded) : c'.IsEnded := by
  rw [IsEnded, h.stop]
  exact ended

/-- What moves on stays where it is or moves on. -/
theorem weak (h : c.Spends strict us c') : c.Spends false us c' := by
  obtain ⟨ts, rest, -, starts⟩ := h.tokens
  refine ⟨⟨ts, rest, fun h => absurd h Bool.false_ne_true, ?_⟩, h.stop, h.own, h.trailing⟩
  cases strict with
  | false => exact starts
  | true => exact starts.trans (List.tail_sublist ts)

/-- A strict way is strict, however it goes on. -/
theorem trans (h : c.Spends strict us c') (k : c'.Spends false vs c'') :
    c.Spends strict (us ++ vs) c'' := by
  obtain ⟨ts, rest, some, starts⟩ := h.tokens
  obtain ⟨ts', rest', -, starts'⟩ := k.tokens
  refine ⟨⟨ts ++ ts', ?_, ?_, ?_⟩, k.stop.trans h.stop, k.own.trans h.own, ?_⟩
  · rw [rest, rest', List.append_assoc]
  · exact fun strict => List.append_ne_nil_of_left_ne_nil (some strict) _
  · rw [startsOf_append]
    cases strict with
    | false => exact starts.append starts'
    | true =>
      rw [if_pos rfl, List.tail_append_of_ne_nil (some rfl)]
      exact starts.append starts'
  · rw [claimedBy_append, List.append_assoc]
    exact (k.trailing.append_left _).trans h.trailing

/-- A strict way is strict, however many tokens are passed before it, if nothing is looked up on them. -/
theorem before (h : c.Spends false us c') (none : startsOf us = []) (k : c'.Spends strict vs c'') :
    c.Spends strict (us ++ vs) c'' := by
  cases strict with
  | false => exact h.trans k
  | true =>
    obtain ⟨ts, rest, -, -⟩ := h.tokens
    obtain ⟨ts', rest', some, starts⟩ := k.tokens
    refine ⟨⟨ts ++ ts', ?_, ?_, ?_⟩, (h.trans k.weak).stop, (h.trans k.weak).own,
      (h.trans k.weak).trailing⟩
    · rw [rest, rest', List.append_assoc]
    · exact fun strict => List.append_ne_nil_of_right_ne_nil _ (some strict)
    · rw [startsOf_append, none, List.nil_append]
      refine starts.trans ?_
      cases ts with
      | nil => exact .refl _
      | cons t ts => exact (List.tail_sublist ts').trans (List.sublist_append_right ts ts')

/-- What is looked up above the first token of a strict way has a token of its own. -/
theorem lookUp (h : c.Spends true us c') : c.Spends false (.above c.current :: us) c' := by
  obtain ⟨ts, rest, some, starts⟩ := h.tokens
  refine ⟨⟨ts, rest, fun h => absurd h Bool.false_ne_true, ?_⟩, h.stop, h.own, h.trailing⟩
  cases ts with
  | nil => exact absurd rfl (some rfl)
  | cons t ts =>
    have first : c.current = t := by rw [current, rest]; rfl
    rw [first]
    exact starts.cons_cons t

/-- Claiming a comment takes it away. -/
theorem claim (c : Cursor) {m : Comment} (found : c.trailing.find? c.trails = some m) :
    c.Spends false [.behind m] c.dropCommentBehind := by
  refine ⟨(refl c).tokens, rfl, rfl, ?_⟩
  obtain ⟨trails, front, back, same, before⟩ := List.find?_eq_some_iff_append.1 found
  have gone : c.trailing.eraseP c.trails = front ++ back := by
    rw [same, List.eraseP_append_right _ fun m mem => by simpa using before m mem,
      List.eraseP_cons_of_pos trails]
  rw [dropCommentBehind, gone, same]
  show (m :: (front ++ back)).Perm (front ++ m :: back)
  exact List.perm_middle.symm

/-- Without a comment behind there is none to spend. -/
theorem claimNone (c : Cursor) (found : c.trailing.find? c.trails = none) :
    c.Spends false [] c.dropCommentBehind := by
  have same : c.dropCommentBehind = c := by
    have all : ∀ m ∈ c.trailing, ¬c.trails m = true := List.find?_eq_none.1 found
    rw [dropCommentBehind, List.eraseP_of_forall_not all]
  rw [same]
  exact refl c

end Spends

end Cursor

namespace Parser

variable {α β γ : Type} {strict : Bool} {before : List Remark}

/-! ## Parsers that use no comment -/

/-- The parser uses no comment, and what it gives is as said. -/
def Quiet (p : Parser α) (post : α → Prop) : Prop :=
  ∀ (c c' : Cursor) (x : α), p c = .ok (x, c') → c.IsEnded → c.Spends false [] c' ∧ post x

namespace Quiet

variable {p : Parser α} {post : α → Prop} {post' : β → Prop} {f : α → Parser β}

/-- A value is quiet, if it is as promised. -/
theorem pure {x : α} (h : post x) : Quiet (Pure.pure x) post := by
  intro c c' y run _
  obtain ⟨rfl, rfl⟩ := pure_eq_ok.1 run
  exact ⟨.refl c, h⟩

/-- What fails uses no comment. -/
theorem fail (cause : ParseCause) : Quiet (Parser.fail cause : Parser α) post :=
  fun _ _ _ run => absurd run fail_ne_ok

/-- Quiet steps, one behind the other, are quiet; the second may take for granted what the first promises.
-/
theorem bind (h : p.Quiet post) (k : ∀ x, post x → (f x).Quiet post') : (p >>= f).Quiet post' := by
  intro c c' y run ended
  obtain ⟨x, c₁, first, rest⟩ := bind_eq_ok.1 run
  obtain ⟨spends, said⟩ := h c c₁ x first ended
  obtain ⟨spends', said'⟩ := k x said c₁ c' y rest (spends.isEnded ended)
  exact ⟨spends.trans spends', said'⟩

/-- A look ahead uses no comment. -/
theorem ask (look : Cursor → γ) : (Parser.ask look).Quiet fun _ => True := by
  intro c c' z run _
  cases run
  exact ⟨.refl c, trivial⟩

theorem advance : Parser.advance.Quiet fun _ => True := by
  intro c c' t run _
  cases run
  exact ⟨.pass c 1, trivial⟩

theorem passSemis : Parser.passSemis.Quiet fun _ => True := by
  intro c c' t run _
  cases run
  exact ⟨.pass c _, trivial⟩

/-- A look that decides. -/
theorem ifAsk {look : Cursor → Bool} {p q : Parser α} (h : p.Quiet post) (k : q.Quiet post) :
    (do if ← Parser.ask look then p else q : Parser α).Quiet post := by
  refine (ask look).bind fun shows _ => ?_
  cases shows with
  | true => exact h
  | false => exact k

theorem expect (w : Lexeme) : (Parser.expect w).Quiet fun _ => True := ifAsk advance (fail _)

theorem ident : Parser.ident.Quiet fun _ => True :=
  (ifAsk advance (fail _) : Parser.identToken.Quiet _).bind fun _ _ => pure trivial

theorem bounded {p : Nat → Parser α} (h : ∀ n, (p n).Quiet post) : (Parser.bounded p).Quiet post :=
  fun c c' x => h _ c c' x

theorem endStatement : Parser.endStatement.Quiet fun _ => True := by
  refine (ask _).bind fun t _ => ?_
  split
  · exact advance.bind fun _ _ => pure trivial
  · exact pure trivial
  · exact pure trivial
  · exact pure trivial
  · exact fail _

end Quiet

/-! ## Parsers that may use comments -/

/-- The remarks in what the parser gives are among those before it and those that it makes. -/
def Attaches (strict : Bool) (before : List Remark) (p : Parser α) (remarks : α → List Remark) : Prop :=
  ∀ (c c' : Cursor) (x : α), p c = .ok (x, c') → c.IsEnded → ∃ uses, c.Spends strict uses c' ∧
    (remarks x).Sublist (before ++ remarksBy c.own uses)

namespace Attaches

variable {p : Parser α} {remarks : α → List Remark} {remarks' : β → List Remark} {f : α → Parser β}

theorem pure {x : α} (h : (remarks x).Sublist before) :
    Attaches false before (Pure.pure x) remarks := by
  intro c c' y run _
  obtain ⟨rfl, rfl⟩ := pure_eq_ok.1 run
  refine ⟨[], .refl c, ?_⟩
  rw [remarksBy, List.filterMap_nil, List.append_nil]
  exact h

/-- A value attaches what was attached before it. -/
theorem pure_of_eq {x : α} (h : remarks x = before) : Attaches false before (Pure.pure x) remarks :=
  pure (h ▸ .refl _)

theorem fail (cause : ParseCause) :
    Attaches strict before (Parser.fail cause : Parser α) remarks :=
  fun _ _ _ run => absurd run fail_ne_ok

/-- A step that always moves on may be taken where that is not asked for. -/
theorem any (h : Attaches true before p remarks) : Attaches strict before p remarks := by
  intro c c' x run ended
  obtain ⟨uses, spends, made⟩ := h c c' x run ended
  cases strict with
  | false => exact ⟨uses, spends.weak, made⟩
  | true => exact ⟨uses, spends, made⟩

/-- Of the remarks from before, some may be left out. -/
theorem mono {fewer : List Remark} (h : Attaches strict fewer p remarks) (sub : fewer.Sublist before) :
    Attaches strict before p remarks := by
  intro c c' x run ended
  obtain ⟨uses, spends, made⟩ := h c c' x run ended
  exact ⟨uses, spends, made.trans (sub.append_right _)⟩

/-- The remarks before a parser stay before what it gives. -/
theorem frame (h : Attaches strict [] p remarks) :
    Attaches strict before p fun x => before ++ remarks x := by
  intro c c' x run ended
  obtain ⟨uses, spends, made⟩ := h c c' x run ended
  exact ⟨uses, spends, made.append_left before⟩

/-- A second step starts from the remarks of the first. -/
theorem andThen (h : Attaches strict before p remarks)
    (k : ∀ x, Attaches false (remarks x) (f x) remarks') :
    Attaches strict before (p >>= f) remarks' := by
  intro c c' y run ended
  obtain ⟨x, c₁, first, rest⟩ := bind_eq_ok.1 run
  obtain ⟨uses, spends, made⟩ := h c c₁ x first ended
  obtain ⟨uses', spends', made'⟩ := k x c₁ c' y rest (spends.isEnded ended)
  refine ⟨uses ++ uses', spends.trans spends', made'.trans ?_⟩
  rw [spends.own, remarksBy_append, ← List.append_assoc]
  exact made.append_right _

theorem bind (h : Attaches strict [] p remarks)
    (k : ∀ x, Attaches false (before ++ remarks x) (f x) remarks') :
    Attaches strict before (p >>= f) remarks' := h.frame.andThen k

/-- Whatever goes before without using a comment. -/
theorem after {post : α → Prop} (h : p.Quiet post)
    (k : ∀ x, post x → Attaches strict before (f x) remarks') :
    Attaches strict before (p >>= f) remarks' := by
  intro c c' y run ended
  obtain ⟨x, c₁, first, rest⟩ := bind_eq_ok.1 run
  obtain ⟨spends, said⟩ := h c c₁ x first ended
  obtain ⟨uses, spends', made⟩ := k x said c₁ c' y rest (spends.isEnded ended)
  rw [spends.own] at made
  exact ⟨uses, spends.before rfl spends', made⟩

theorem ask {look : Cursor → γ} {f : γ → Parser β}
    (k : ∀ z, Attaches strict before (f z) remarks') :
    Attaches strict before (Parser.ask look >>= f) remarks' := after (.ask look) fun z _ => k z

theorem advance {f : Token → Parser β} (k : ∀ t, Attaches strict before (f t) remarks') :
    Attaches strict before (Parser.advance >>= f) remarks' := after .advance fun t _ => k t

theorem ifAsk {look : Cursor → Bool} {p q : Parser α} (h : Attaches strict before p remarks)
    (k : Attaches strict before q remarks) :
    Attaches strict before (do if ← Parser.ask look then p else q : Parser α) remarks := by
  refine ask fun shows => ?_
  cases shows with
  | true => exact h
  | false => exact k

/-- Passing a word makes a way strict. -/
theorem of_passes {w : Lexeme} {c c' : Cursor} (passes : c.Passes [w] c')
    (spends : c.Spends false [] c') : c.Spends true [] c' := by
  obtain ⟨ts, rest, -, -⟩ := spends.tokens
  refine ⟨⟨ts, rest, fun _ none => ?_, List.nil_sublist _⟩, spends.stop, spends.own, spends.trailing⟩
  have ahead := passes.ahead_eq
  rw [Cursor.ahead, rest, none, List.nil_append] at ahead
  exact absurd (congrArg List.length ahead) (by simp [Cursor.ahead])

theorem expect {w : Lexeme} {f : Token → Parser β} (some : w ≠ .eof)
    (k : ∀ t, Attaches false before (f t) remarks') :
    Attaches strict before (Parser.expect w >>= f) remarks' := by
  refine any fun c c' y run ended => ?_
  obtain ⟨t, c₁, first, rest⟩ := bind_eq_ok.1 run
  have spends := of_passes (passes_of_expect ended first some) (Quiet.expect w c c₁ t first ended).1
  obtain ⟨uses, spends', made⟩ := k t c₁ c' y rest (spends.isEnded ended)
  rw [spends.own] at made
  exact ⟨uses, spends.trans spends', made⟩

theorem ident {f : String → Parser β} (k : ∀ n, Attaches false before (f n) remarks') :
    Attaches strict before (Parser.ident >>= f) remarks' := by
  refine any fun c c' y run ended => ?_
  obtain ⟨n, c₁, first, rest⟩ := bind_eq_ok.1 run
  have spends := of_passes (passes_of_ident ended first) (Quiet.ident c c₁ n first ended).1
  obtain ⟨uses, spends', made⟩ := k n c₁ c' y rest (spends.isEnded ended)
  rw [spends.own] at made
  exact ⟨uses, spends.trans spends', made⟩

/-- What starts here is strict, so that nothing else starts at its first token. -/
theorem docHere {f : Option CommentGroup → Parser β}
    (k : ∀ doc, Attaches true (before ++ Remark.ofDoc doc) (f doc) remarks') :
    Attaches false before (Parser.docHere >>= f) remarks' := by
  intro c c' y run ended
  rw [docHere_bind] at run
  obtain ⟨uses, spends, made⟩ := k _ c c' y run ended
  refine ⟨_, spends.lookUp, made.trans ?_⟩
  rw [ofDoc_docAbove, List.append_assoc, ← remarksBy_append]
  exact .refl _

/-- The comment behind is attached to what is put together from then on. -/
theorem commentBehind {f : Option CommentGroup → Parser β}
    (k : ∀ note, Attaches strict (before ++ Remark.ofNote note) (f note) remarks') :
    Attaches strict before (Parser.commentBehind >>= f) remarks' := by
  intro c c' y run ended
  rw [commentBehind_bind] at run
  obtain ⟨uses, spends, made⟩ := k _ _ c' y run ended
  cases found : c.trailing.find? c.trails with
  | none =>
    rw [Cursor.commentBehind, found] at made
    rw [show before ++ Remark.ofNote (none.map _) = before from List.append_nil _] at made
    exact ⟨uses, (Cursor.Spends.claimNone c found).before rfl spends, made⟩
  | some m =>
    rw [Cursor.commentBehind, found, List.append_assoc] at made
    exact ⟨.behind m :: uses, (Cursor.Spends.claim c found).before rfl spends, made⟩

theorem bounded {p : Nat → Parser α} (h : ∀ n, Attaches strict before (p n) remarks) :
    Attaches strict before (Parser.bounded p) remarks := fun c c' x => h _ c c' x

/-! ## Loops -/

/-- The remarks of the members stand in the order of the members. -/
theorem itemsUntil {close : Lexeme} {item : Parser α} (h : Attaches false [] item remarks) (n : Nat) :
    Attaches false [] (Parser.itemsUntil close item n) fun xs => xs.flatMap remarks := by
  induction n with
  | zero => exact fail _
  | succ n ih =>
    refine ifAsk (pure (.refl _)) (ifAsk (advance fun _ => ih) ?_)
    exact h.bind fun x => ih.bind fun xs => pure (.refl _)

/-- The remarks of the items stand in the order of the items. -/
theorem commaItems {close : Lexeme} {item : Parser α} (h : Attaches false [] item remarks) (n : Nat) :
    Attaches false [] (Parser.commaItems close item n) fun xs => xs.flatMap remarks := by
  induction n with
  | zero => exact fail _
  | succ n ih =>
    refine ifAsk (pure (.refl _)) (h.bind fun x => ifAsk (advance fun _ => ?_) ?_)
    · exact ih.bind fun xs => pure (.refl _)
    · refine pure ?_
      rw [List.flatMap_cons, List.flatMap_nil, List.append_nil]
      exact .refl _

end Attaches

end Parser

end Typings
