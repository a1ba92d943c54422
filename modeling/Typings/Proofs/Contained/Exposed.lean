import Typings.Proofs.Joined.Frame

/-!
# Parsers that keep to the tokens of a source

A cursor never leaves its tokens by itself: past the token that ends the text it stays there, and so
do looks past it or before the first token. `Cursor.exposed` takes this help away. There the last
token may be passed as any other, and what a look outside of the tokens finds is arbitrary. A parser
that is `Contained` at a cursor does the same without the help: it stays within the tokens, looks at
no other ones, has rounds and levels enough, and fails at a token of them. Parsers are put together
from the cursor on, so that what a look has shown may be used to pass a token behind it.
-/

namespace Typings

/-- What passes a test that the mark of the end fails is another lexeme. -/
theorem Lexeme.ne_eof_of_test (test : Lexeme → Bool) {w : Lexeme} (shown : test w = true)
    (no : test .eof = false) : w ≠ .eof := by
  rintro rfl
  rw [no] at shown
  cases shown

/-- What is outside of a list of tokens: those before the first with the latest first, and the one
behind the last. -/
structure Outside where
  before : List Token
  beyond : Token

/-- The cursor at the same place, with the token that ends the text as one more token to be passed. -/
def Cursor.exposed (c : Cursor) (o : Outside) : Cursor :=
  { c with passed := c.passed ++ o.before, rest := c.rest ++ [c.stop], stop := o.beyond }

/-- The cause is found at the end of a search, not at the cursor. -/
def ParseCause.isOpen : ParseCause → Bool
  | .openImports | .openBody => true
  | _ => false

/-- The same failure, where the end of a search is outside of the tokens. -/
def ParseError.exposed (e : ParseError) (o : Outside) : ParseError :=
  if e.cause.isOpen then { e with found := o.beyond } else e

/-- The same outcome at an exposed cursor. -/
def Outside.outcome {α : Type} (o : Outside) :
    Except ParseError (α × Cursor) → Except ParseError (α × Cursor)
  | .ok (x, c) => .ok (x, c.exposed o)
  | .error e => .error (e.exposed o)

/-! ## What an exposed cursor sees -/

namespace Cursor

variable {c c' : Cursor} (o : Outside)

theorem current_mem (c : Cursor) : c.current ∈ c.rest ++ [c.stop] := by
  rw [current]
  cases c.rest with
  | nil => exact List.mem_singleton_self _
  | cons t ts => exact List.mem_cons_self

/-- Where the lexeme is not the mark of the end, a token is ahead. -/
theorem rest_ne_nil (ended : c.IsEnded) (here : c.current.lexeme ≠ .eof) : c.rest ≠ [] := by
  intro nothing
  rw [current, nothing] at here
  exact here ended

/-- A token is ahead, so the cursor moves. -/
theorem length_advance_lt (ended : c.IsEnded) (here : c.current.lexeme ≠ .eof) :
    c.advance.rest.length < c.rest.length := by
  have some := List.length_pos_iff.2 (rest_ne_nil ended here)
  rw [advance, pass, List.length_drop]
  omega

theorem Reaches.length_le (h : c.Reaches c') : c'.rest.length ≤ c.rest.length := by
  obtain ⟨us, rest, -⟩ := h.tokens
  rw [rest, List.length_append]
  exact Nat.le_add_left ..

/-- Where fewer tokens are ahead, one is behind. -/
theorem Reaches.started (h : c.Reaches c') (less : c'.rest.length < c.rest.length) :
    c'.passed ≠ [] := by
  obtain ⟨us, rest, passed⟩ := h.tokens
  intro nothing
  rw [passed, List.append_eq_nil_iff, List.reverse_eq_nil_iff] at nothing
  rw [rest, nothing.1] at less
  exact Nat.lt_irrefl _ less

theorem Reaches.mem_tokens (h : c.Reaches c') {t : Token} (mem : t ∈ c'.rest ++ [c'.stop]) :
    t ∈ c.rest ++ [c.stop] := by
  obtain ⟨us, rest, -⟩ := h.tokens
  rw [rest, List.append_assoc, ← h.stop]
  exact List.mem_append_right us mem

/-- A look no further than the last token shows the same. -/
theorem peek_exposed {n : Nat} (le : n ≤ c.rest.length) : (c.exposed o).peek n = c.peek n := by
  simp only [peek, exposed, List.getD_eq_getElem?_getD]
  rcases Nat.lt_or_eq_of_le le with lt | rfl
  · rw [List.getElem?_append_left lt, List.getElem?_eq_getElem lt]
    rfl
  · rw [List.getElem?_append_right (Nat.le_refl _), Nat.sub_self, List.getElem?_eq_none (Nat.le_refl _)]
    rfl

@[simp] theorem current_exposed : (c.exposed o).current = c.current := by
  rw [current_eq_peek, current_eq_peek, peek_exposed o (Nat.zero_le _)]

/-- Where a token has been passed, the last one shows. -/
theorem prev_exposed (started : c.passed ≠ []) : (c.exposed o).prev = c.prev := by
  obtain ⟨t, ts, passed⟩ := List.exists_cons_of_ne_nil started
  rw [prev, prev, exposed, passed]
  rfl

/-- As many tokens as are ahead are passed alike. -/
theorem pass_exposed {n : Nat} (le : n ≤ c.rest.length) :
    (c.exposed o).pass n = (c.pass n).exposed o := by
  simp only [pass, exposed, List.take_append_of_le_length le, List.drop_append_of_le_length le,
    List.append_assoc]

/-- A token before the mark of the end is passed alike. -/
theorem advance_exposed (ended : c.IsEnded) (here : c.current.lexeme ≠ .eof) :
    (c.exposed o).advance = c.advance.exposed o :=
  pass_exposed o (List.length_pos_iff.2 (rest_ne_nil ended here))

/-- The mark of the end is no semicolon, so that semicolons are passed alike. -/
theorem passSemis_exposed (ended : c.IsEnded) : (c.exposed o).passSemis = c.passSemis.exposed o := by
  let isSemi : Token → Bool := fun t => t.lexeme = .op .semicolon
  have last : isSemi c.stop = false := by
    simp [isSemi, show c.stop.lexeme = .eof from ended]
  have same : (c.rest ++ [c.stop]).takeWhile isSemi = c.rest.takeWhile isSemi := by
    rw [List.takeWhile_append, List.takeWhile_cons_of_neg (Bool.eq_false_iff.1 last), List.append_nil]
    split
    · next all => exact ((List.takeWhile_prefix _).eq_of_length all).symm
    · rfl
  rw [passSemis, show (c.exposed o).rest = c.rest ++ [c.stop] from rfl, same]
  exact pass_exposed o (List.takeWhile_sublist _).length_le

/-! ### Comments -/

theorem trails_exposed (started : c.passed ≠ []) : (c.exposed o).trails = c.trails := by
  funext comment
  rw [trails, trails, prev_exposed o started, current_exposed]

/-- Where a token has been passed, the comment behind it is found. -/
theorem commentBehind_exposed (started : c.passed ≠ []) :
    (c.exposed o).commentBehind = c.commentBehind := by
  rw [commentBehind, commentBehind, trails_exposed o started]
  rfl

theorem dropCommentBehind_exposed (started : c.passed ≠ []) :
    (c.exposed o).dropCommentBehind = c.dropCommentBehind.exposed o := by
  rw [dropCommentBehind, trails_exposed o started]
  rfl

/-! ### Looks ahead -/

/-- The search for a closing bracket ends before the token that ends the text, and a bracket has a
token behind it. -/
theorem closesBeforeType_exposed {stop : Token} (ended : stop.lexeme = .eof) (beyond : Token)
    (depth : Int) (ts : List Token) :
    closesBeforeType beyond depth (ts ++ [stop]) = closesBeforeType stop depth ts := by
  induction ts generalizing depth with
  | nil => simp [closesBeforeType, ended]
  | cons t ts ih =>
    have next : (ts ++ [stop]).headD beyond = ts.headD stop := by cases ts <;> rfl
    rw [List.cons_append, closesBeforeType, closesBeforeType, ih, ih, ih, next]

theorem isIdent_ne_eof (here : c.current.lexeme.isIdent = true) : c.current.lexeme ≠ .eof :=
  Lexeme.ne_eof_of_test Lexeme.isIdent here rfl

section shows

variable (ended : c.IsEnded)

include ended

theorem peek_one_exposed (here : c.current.lexeme ≠ .eof) : (c.exposed o).peek 1 = c.peek 1 :=
  peek_exposed o (List.length_pos_iff.2 (rest_ne_nil ended here))

/-- The search for a bracket ends at the mark of the end, whatever is behind it. -/
theorem closesAtType_exposed (here : c.current.lexeme ≠ .eof) :
    (c.exposed o).closesAtType 1 = c.closesAtType 1 := by
  have some : 1 ≤ c.rest.length := List.length_pos_iff.2 (rest_ne_nil ended here)
  rw [closesAtType, closesAtType, ← closesBeforeType_exposed ended o.beyond]
  rw [exposed, List.drop_append_of_le_length some]

theorem showsNamedArray_exposed : (c.exposed o).showsNamedArray = c.showsNamedArray := by
  rw [showsNamedArray, showsNamedArray, current_exposed]
  cases here : c.current.lexeme.isIdent with
  | true =>
    have some := isIdent_ne_eof here
    rw [peek_one_exposed o ended some, closesAtType_exposed o ended some]
  | false => rfl

/-- Whether a field has a name is told within the tokens: no look goes past the mark of the end. -/
theorem showsFieldName_exposed : (c.exposed o).showsFieldName = c.showsFieldName := by
  rw [showsFieldName, showsFieldName, current_exposed]
  cases here : c.current.lexeme.isIdent with
  | true =>
    have some := isIdent_ne_eof here
    rw [peek_one_exposed o ended some, closesAtType_exposed o ended some]
  | false => rfl

theorem showsTypeArgs_exposed : (c.exposed o).showsTypeArgs = c.showsTypeArgs := by
  rw [showsTypeArgs, showsTypeArgs, current_exposed]
  by_cases here : c.current.lexeme = .op .leftBracket
  · rw [peek_one_exposed o ended (by simp [here])]
  · simp only [here, decide_false, Bool.false_and]

theorem showsMethod_exposed : (c.exposed o).showsMethod = c.showsMethod := by
  rw [showsMethod, showsMethod, current_exposed]
  cases here : c.current.lexeme.isIdent with
  | true => rw [peek_one_exposed o ended (isIdent_ne_eof here)]
  | false => rfl

/-- The second token ahead is looked at only if the first is a name, and so not the last. -/
theorem showsTypeParams_exposed :
    Parser.showsTypeParams (c.exposed o) = Parser.showsTypeParams c := by
  rw [Parser.showsTypeParams, Parser.showsTypeParams, current_exposed]
  by_cases here : c.current.lexeme = .op .leftBracket
  · have some : c.current.lexeme ≠ .eof := by simp [here]
    rw [peek_one_exposed o ended some]
    cases named : (c.peek 1).lexeme.isIdent with
    | true =>
      have further : 1 < c.rest.length := by
        refine Nat.lt_of_not_le fun le => ?_
        rw [peek, List.getD_eq_getElem?_getD, List.getElem?_eq_none le, Option.getD_none,
          show c.stop.lexeme = .eof from ended] at named
        cases named
      rw [peek_exposed o further]
    | false => simp only [Bool.and_false, Bool.false_and]
  · simp only [here, decide_false, Bool.false_and]

end shows

end Cursor

/-! ## Contained parsers -/

namespace Parser

variable {α β γ : Type}

/-- From this cursor, `p` ends with fewer than so many tokens ahead or fails at a token ahead, never
for want of rounds or levels, and `q` does the same where the cursor is exposed: a look behind the last
token or before the first would show what is outside there, and a step past the last one would leave no
place to stay at. Bounds depend on the number of tokens ahead, so that `q` may be `p` with a larger one. -/
structure Contained (c : Cursor) (bound : Nat) (p q : Parser α) : Prop where
  ok : c.IsEnded → ∀ {x c'}, p c = .ok (x, c') → c.Reaches c' ∧ c'.rest.length < bound
  error : c.IsEnded → ∀ {e}, p c = .error e → e.cause ≠ .exhausted ∧ e.found ∈ c.rest ++ [c.stop]
  exposed : c.IsEnded → ∀ o, q (c.exposed o) = o.outcome (p c)

namespace Contained

variable {c : Cursor} {k n : Nat} {p q : Parser α} {f g : α → Parser β}

/-- A value is given with as many tokens ahead as before. -/
theorem pure {x : α} (le : c.rest.length < n) :
    Contained c n (Pure.pure x : Parser α) (Pure.pure x) where
  ok _ {_ _} run := by
    obtain ⟨-, rfl⟩ := pure_eq_ok.1 run
    exact ⟨.refl _, le⟩
  error _ {_} run := by cases run
  exposed _ _ := rfl

/-- A failure is at the cursor, unless it is one of a search. -/
theorem fail {cause : ParseCause} (here : cause.isOpen = false) (inside : cause ≠ .exhausted) :
    Contained c n (Parser.fail cause : Parser α) (Parser.fail cause) where
  ok _ {_ _} run := absurd run fail_ne_ok
  error _ {_} run := by
    cases run
    exact ⟨inside, c.current_mem⟩
  exposed _ o := by
    simp [Parser.fail, Outside.outcome, ParseError.exposed, here]

/-- One parser and then another, which goes on from where the first has come to. -/
theorem bind (h : Contained c k p q)
    (next : ∀ x c', c.Reaches c' → c'.rest.length < k → Contained c' n (f x) (g x)) :
    Contained c n (p >>= f) (q >>= g) where
  ok ended {_ _} run := by
    obtain ⟨x, c₁, first, rest⟩ := bind_eq_ok.1 run
    obtain ⟨reaches, less⟩ := h.ok ended first
    obtain ⟨further, left⟩ := (next x c₁ reaches less).ok (reaches.isEnded ended) rest
    exact ⟨reaches.trans further, left⟩
  error ended {e} run := by
    cases first : p c with
    | error e' =>
      change (p c >>= fun r => f r.1 r.2) = _ at run
      rw [first] at run
      cases run
      exact h.error ended first
    | ok r =>
      obtain ⟨x, c₁⟩ := r
      rw [bind_of_ok first] at run
      obtain ⟨reaches, less⟩ := h.ok ended first
      obtain ⟨inside, found⟩ := (next x c₁ reaches less).error (reaches.isEnded ended) run
      exact ⟨inside, reaches.mem_tokens found⟩
  exposed ended o := by
    have same := h.exposed ended o
    cases first : p c with
    | error e =>
      rw [first] at same
      show (q (c.exposed o) >>= fun r => g r.1 r.2) = o.outcome (p c >>= fun r => f r.1 r.2)
      rw [same, first]
      rfl
    | ok r =>
      obtain ⟨x, c₁⟩ := r
      rw [first] at same
      obtain ⟨reaches, less⟩ := h.ok ended first
      rw [bind_of_ok first, bind_of_ok same]
      exact (next x c₁ reaches less).exposed (reaches.isEnded ended) o

theorem mono (h : Contained c k p q) (le : k ≤ n) : Contained c n p q where
  ok ended {_ _} run := (h.ok ended run).imp_right fun less => Nat.lt_of_lt_of_le less le
  error := h.error
  exposed := h.exposed

/-! ### Looking ahead -/

/-- A look that is the same where the cursor is exposed may decide how parsing goes on. -/
theorem ask {look : Cursor → γ} {f g : γ → Parser β}
    (same : c.IsEnded → ∀ o, look (c.exposed o) = look c)
    (h : Contained c n (f (look c)) (g (look c))) :
    Contained c n (Parser.ask look >>= f) (Parser.ask look >>= g) where
  ok ended {_ _} run := h.ok ended run
  error ended {_} run := h.error ended run
  exposed ended o := by
    rw [ask_bind, ask_bind, same ended o]
    exact h.exposed ended o

/-- A question, and what is done as it is answered. -/
theorem askIf {look : Cursor → Bool} {f g : Bool → Parser β}
    (same : c.IsEnded → ∀ o, look (c.exposed o) = look c)
    (yes : look c = true → Contained c n (f true) (g true))
    (no : look c = false → Contained c n (f false) (g false)) :
    Contained c n (Parser.ask look >>= f) (Parser.ask look >>= g) := by
  refine ask same ?_
  cases shown : look c with
  | true => exact yes shown
  | false => exact no shown

/-- What the lexeme at the cursor is may be used by what follows. -/
theorem isAt {w : Lexeme} {f g : Bool → Parser β}
    (yes : c.current.lexeme = w → Contained c n (f true) (g true))
    (no : c.current.lexeme ≠ w → Contained c n (f false) (g false)) :
    Contained c n (Parser.isAt w >>= f) (Parser.isAt w >>= g) :=
  askIf (fun _ o => by rw [Cursor.current_exposed]) (fun shown => yes (of_decide_eq_true shown))
    fun shown => no (of_decide_eq_false shown)

theorem current {f g : Token → Parser β} (h : Contained c n (f c.current) (g c.current)) :
    Contained c n (Parser.current >>= f) (Parser.current >>= g) :=
  ask (fun _ o => Cursor.current_exposed o) h

theorem docHere {f g : Option CommentGroup → Parser β} (h : ∀ doc, Contained c n (f doc) (g doc)) :
    Contained c n (Parser.docHere >>= f) (Parser.docHere >>= g) :=
  ask (fun _ o => by rw [Cursor.current_exposed]; rfl) (h _)

/-! ### Moving -/

/-- The token at the cursor is passed, which is not the one that ends the text. -/
theorem advance {f g : Token → Parser β} (here : c.current.lexeme ≠ .eof)
    (h : c.advance.rest.length < c.rest.length →
      Contained c.advance n (f c.current) (g c.current)) :
    Contained c n (Parser.advance >>= f) (Parser.advance >>= g) := by
  have reaches : c.Reaches c.advance := .pass c 1
  constructor
  · intro ended x c' run
    obtain ⟨further, left⟩ := (h (Cursor.length_advance_lt ended here)).ok (reaches.isEnded ended) run
    exact ⟨reaches.trans further, left⟩
  · intro ended e run
    obtain ⟨inside, found⟩ :=
      (h (Cursor.length_advance_lt ended here)).error (reaches.isEnded ended) run
    exact ⟨inside, reaches.mem_tokens found⟩
  · intro ended o
    rw [advance_bind, advance_bind, Cursor.advance_exposed o ended here, Cursor.current_exposed]
    exact (h (Cursor.length_advance_lt ended here)).exposed (reaches.isEnded ended) o

/-- A token that may be missing is passed. -/
theorem advanceIf {shown : Bool} (some : shown = true → c.current.lexeme ≠ .eof) :
    Contained c (c.rest.length + 1) (if shown = true then discard Parser.advance else Pure.pure ())
      (if shown = true then discard Parser.advance else Pure.pure ()) := by
  cases shown with
  | true =>
    exact advance (f := fun _ => Pure.pure ()) (g := fun _ => Pure.pure ()) (some rfl)
      fun less => pure (Nat.lt_succ_of_lt less)
  | false => exact pure (Nat.lt_succ_self _)

/-- An expected lexeme is no mark of the end, so that a token is passed. -/
theorem expect {w : Lexeme} (some : w ≠ .eof) :
    Contained c c.rest.length (Parser.expect w) (Parser.expect w) := by
  refine isAt (fun here => ?_) fun _ => fail rfl (by simp)
  exact advance (f := Pure.pure) (g := Pure.pure) (by rw [here]; exact some) fun less => pure less

theorem identToken : Contained c c.rest.length Parser.identToken Parser.identToken := by
  refine askIf (fun _ o => by rw [Cursor.current_exposed]) (fun here => ?_) fun _ => fail rfl (by simp)
  exact advance (f := Pure.pure) (g := Pure.pure) (Cursor.isIdent_ne_eof here) fun less => pure less

theorem ident : Contained c c.rest.length Parser.ident Parser.ident :=
  bind identToken fun _ _ _ less => pure less

theorem passSemis : Contained c (c.rest.length + 1) Parser.passSemis Parser.passSemis where
  ok _ {_ _} run := by
    cases run
    exact ⟨.passSemis c, Nat.lt_succ_of_le (Cursor.Reaches.passSemis c).length_le⟩
  error _ {_} run := by cases run
  exposed ended o := congrArg (fun c => Except.ok ((), c)) (Cursor.passSemis_exposed o ended)

theorem endStatement : Contained c (c.rest.length + 1) Parser.endStatement Parser.endStatement := by
  refine current ?_
  split
  · next here =>
    exact advance (f := fun _ => Pure.pure ()) (g := fun _ => Pure.pure ()) (by simp [here])
      fun less => pure (Nat.lt_succ_of_lt less)
  · exact pure (Nat.lt_succ_self _)
  · exact pure (Nat.lt_succ_self _)
  · exact pure (Nat.lt_succ_self _)
  · exact fail rfl (by simp)

/-- The comment behind a token that has been passed. -/
theorem commentBehind {f g : Option CommentGroup → Parser β} (started : c.passed ≠ [])
    (h : ∀ doc c', c'.rest.length = c.rest.length → Contained c' n (f doc) (g doc)) :
    Contained c n (Parser.commentBehind >>= f) (Parser.commentBehind >>= g) := by
  have reaches := Cursor.Reaches.dropCommentBehind c
  have claimed := h c.commentBehind c.dropCommentBehind rfl
  constructor
  · intro ended x c' run
    obtain ⟨further, left⟩ := claimed.ok (reaches.isEnded ended) run
    exact ⟨reaches.trans further, left⟩
  · intro ended e run
    exact claimed.error (reaches.isEnded ended) run
  · intro ended o
    rw [commentBehind_bind, commentBehind_bind, Cursor.commentBehind_exposed o started,
      Cursor.dropCommentBehind_exposed o started]
    exact claimed.exposed (reaches.isEnded ended) o

/-! ### Loops -/

/-- Where the cursor is exposed, one more token is ahead. -/
theorem bounded {p q : Nat → Parser α}
    (h : ∀ m, c.rest.length + 1 ≤ m → Contained c n (p (c.rest.length + 1)) (q m)) :
    Contained c n (Parser.bounded p) (Parser.bounded q) where
  ok ended {_ _} run := (h _ (Nat.le_refl _)).ok ended run
  error ended {_} run := (h _ (Nat.le_refl _)).error ended run
  exposed ended o := by
    refine (h ((c.exposed o).rest.length + 1) ?_).exposed ended o
    simp [Cursor.exposed]

end Contained

/-- With fewer than so many tokens ahead, `p` passes one of them at least, and is contained. -/
def Consumes (n : Nat) (p q : Parser α) : Prop :=
  ∀ c : Cursor, c.rest.length < n → Contained c c.rest.length p q

namespace Contained

variable {c : Cursor} {l n m : Nat} {close : Lexeme} {item item' : Parser α}

/-- Items are parsed within the tokens, each passes one, and so there are rounds enough. -/
theorem itemsUntil (h : Consumes l item item') (le : n ≤ m) (enough : c.rest.length < n)
    (few : c.rest.length < l) :
    Contained c (c.rest.length + 1) (Parser.itemsUntil close item n)
      (Parser.itemsUntil close item' m) := by
  induction le using rounds_induction generalizing c with
  | zero => exact absurd enough (Nat.not_lt_zero _)
  | succ n m _ ih =>
    refine isAt (fun _ => pure (Nat.lt_succ_self _)) fun _ => ?_
    refine isAt (fun semi => ?_) fun _ => ?_
    · refine advance (by simp [semi]) fun less => ?_
      exact (ih (by omega) (by omega)).mono (by omega)
    · refine bind (h c few) fun x c₁ _ less => ?_
      refine bind (ih (by omega) (by omega)) fun xs c₂ _ left => ?_
      exact pure (by omega)

theorem boundedItems (h : ∀ n, Consumes n item item) :
    Contained c (c.rest.length + 1) (Parser.bounded (Parser.itemsUntil close item))
      (Parser.bounded (Parser.itemsUntil close item)) :=
  bounded fun _ le => itemsUntil (h _) le (Nat.lt_succ_self _) (Nat.lt_succ_self _)

/-- Operands are parsed within the tokens; no operator is the mark of the end. -/
theorem operandsAfter {isOperator : Lexeme → Bool} (no : isOperator .eof = false)
    (h : Consumes l item item') (le : n ≤ m) (enough : c.rest.length < n) (few : c.rest.length < l) :
    Contained c (c.rest.length + 1) (Parser.operandsAfter isOperator item n)
      (Parser.operandsAfter isOperator item' m) := by
  induction le using rounds_induction generalizing c with
  | zero => exact absurd enough (Nat.not_lt_zero _)
  | succ n m _ ih =>
    refine current ?_
    split
    · next operator =>
      refine advance (Lexeme.ne_eof_of_test isOperator operator no) fun less => ?_
      refine bind (h c.advance (by omega)) fun x c₁ _ less' => ?_
      refine bind (ih (by omega) (by omega)) fun xs c₂ _ left => ?_
      exact pure (by omega)
    · exact pure (Nat.lt_succ_self _)

theorem commaItems (h : Consumes l item item') (le : n ≤ m) (enough : c.rest.length < n)
    (few : c.rest.length < l) :
    Contained c (c.rest.length + 1) (Parser.commaItems close item n)
      (Parser.commaItems close item' m) := by
  induction le using rounds_induction generalizing c with
  | zero => exact absurd enough (Nat.not_lt_zero _)
  | succ n m _ ih =>
    refine isAt (fun _ => pure (Nat.lt_succ_self _)) fun _ => ?_
    refine bind (h c few) fun x c₁ _ less => ?_
    refine isAt (fun comma => ?_) fun _ => pure (by omega)
    refine advance (by simp [comma]) fun less' => ?_
    refine bind (ih (by omega) (by omega)) fun xs c₂ _ left => ?_
    exact pure (by omega)

theorem moreNames (le : n ≤ m) (enough : c.rest.length < n) :
    Contained c (c.rest.length + 1) (Parser.moreNames n) (Parser.moreNames m) := by
  induction le using rounds_induction generalizing c with
  | zero => exact absurd enough (Nat.not_lt_zero _)
  | succ n m _ ih =>
    refine isAt (fun comma => ?_) fun _ => pure (Nat.lt_succ_self _)
    refine advance (by simp [comma]) fun less => ?_
    refine bind ident fun name c₁ _ less' => ?_
    refine bind (ih (by omega)) fun names c₂ _ left => ?_
    exact pure (by omega)

end Contained

/-- An item and the end of its statement. -/
theorem Consumes.statement {n : Nat} {p q : Parser α} (h : Consumes n p q) :
    Consumes n (do let x ← p; Parser.endStatement; pure x)
      (do let x ← q; Parser.endStatement; pure x) := by
  intro c few
  refine .bind (h c few) fun x c₁ _ less => ?_
  refine .bind .endStatement fun _ c₂ _ left => ?_
  exact .pure (by omega)

end Parser

end Typings
