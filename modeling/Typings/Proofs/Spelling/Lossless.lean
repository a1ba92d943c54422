import Typings.Proofs.Spelling.Soundness
import Typings.Proofs.Spelling.Uniform
import Typings.Proofs.Token.Scanned

/-!
# Parsing a type loses nothing

The productions for bodies and types, and what they come to: the tokens of an accepted source are a
spelling of the type that it gives, semicolons and closing commas aside
(`TypeExpr.essence_tokens_of_parse`).
-/

namespace Typings

/-- A type in parentheses shows at its first lexeme, and so does a channel to receive from. -/
def TypeExpr.OpensWith (w : Lexeme) : TypeExpr → Prop
  | .paren _ => w = .op .leftParen
  | .channel .receive _ => w = .op .arrow
  | _ => True

namespace Parser

/-- What the parser passes covers the type that it gives, and the type shows at its start. -/
def SoundType (ty : Parser TypeExpr) : Prop :=
  ∀ {c c' : Cursor} {x : TypeExpr}, c.IsEnded → ty c = .ok (x, c') →
    x.OpensWith c.current.lexeme ∧ ∃ us, c.Passes us c' ∧ (Phrase.expr .type x).Covers us

/-- What a sound parser for types accepts spells the type. -/
theorem SoundType.sound {ty : Parser TypeExpr} (h : ty.SoundType) : ty.Sound (.expr .type) :=
  fun ended run => (h ended run).2

variable {c c' : Cursor} {ty : Parser TypeExpr}

/-! ## Signatures -/

/-- Results in a list, alone or left out are spelled by what is passed. -/
theorem resultsWith_sound {results : List Field} (sound : ty.SoundType) (ended : c.IsEnded)
    (run : resultsWith ty c = .ok (results, c')) :
    ∃ us ws, c.Passes us c' ∧ Spells (.results results) ws ∧ Means us ws ∧
      (us = [] ∨ EndsFirmly us) := by
  rw [resultsWith, isAt_bind] at run
  split at run
  · obtain ⟨us, passed, ws, spells, means, firm⟩ := paramsWith_sound sound.sound ended run
    exact ⟨us, ws, passed, .listedResults spells, means, .inr firm⟩
  · next elsewhere =>
    rw [current_bind] at run
    split at run
    · obtain ⟨x, c₁, hx, last⟩ := bind_eq_ok.1 run
      obtain ⟨rfl, rfl⟩ := pure_eq_ok.1 last
      obtain ⟨opens, us, passed, ws, spells, means, firm⟩ := sound ended hx
      refine ⟨us, ws, passed, .bareResult ?_ spells, means, .inr firm⟩
      rintro y rfl
      exact elsewhere (decide_eq_true opens)
    · obtain ⟨rfl, rfl⟩ := pure_eq_ok.1 run
      exact ⟨[], [], .refl ended, .noResults, .refl [], .inl rfl⟩

/-- A signature is spelled by its parameters and results. -/
theorem signatureWith_sound {x : TypeExpr} (sound : ty.SoundType) (ended : c.IsEnded)
    (run : signatureWith ty c = .ok (x, c')) :
    ∃ params results us ws vs, x = .func params results [] ∧ c.Passes us c' ∧
      Spells (.params params) ws ∧ Spells (.results results) vs ∧ Means us (ws ++ vs) ∧
      EndsFirmly us := by
  obtain ⟨params, c₁, hparams, run⟩ := bind_eq_ok.1 run
  obtain ⟨us, first, ws, spells, means, firm⟩ := paramsWith_sound sound.sound ended hparams
  obtain ⟨results, c₂, hresults, last⟩ := bind_eq_ok.1 run
  obtain ⟨rfl, rfl⟩ := pure_eq_ok.1 last
  obtain ⟨us', vs, second, spells', means', firm'⟩ := resultsWith_sound sound first.ended hresults
  refine ⟨params, results, us ++ us', ws, vs, rfl, first.trans second, spells, spells',
    means.append means', ?_⟩
  obtain rfl | firm' := firm'
  · rw [List.append_nil]
    exact firm
  · exact .append_left us firm'

/-! ## Bodies -/

/-- At the end of a statement only semicolons are passed. -/
theorem endStatement_sound (ended : c.IsEnded) (run : endStatement c = .ok ((), c')) :
    ∃ us, c.Passes us c' ∧ ∀ w ∈ us, w = .op .semicolon := by
  rw [endStatement, current_bind] at run
  generalize here : c.current.lexeme = w at run
  split at run
  · cases run
    exact ⟨_, Cursor.passes_advance ended here nofun, fun w mem => List.mem_singleton.1 mem⟩
  · cases run
    exact ⟨[], .refl ended, List.forall_mem_nil _⟩
  · cases run
    exact ⟨[], .refl ended, List.forall_mem_nil _⟩
  · cases run
    exact ⟨[], .refl ended, List.forall_mem_nil _⟩
  · exact absurd run fail_ne_ok

/-- What the parser passes for a member spells it in front of the other members of a body. -/
def SoundMember (member : Parser Field) (body : List Field → Phrase) : Prop :=
  ∀ {c c' : Cursor} {f : Field}, c.IsEnded → member c = .ok (f, c') →
    ∃ us ws, c.Passes us c' ∧ Means us ws ∧ ∀ {fs vs},
      Spells (body fs) vs → Spells (body (f :: fs)) (ws ++ .op .semicolon :: vs)

/-- The members of a body are spelled one behind another, each with its semicolons. -/
theorem itemsUntil_sound {close : Lexeme} {member : Parser Field} {body : List Field → Phrase}
    (none : Spells (body []) []) (sound : member.SoundMember body) {n : Nat} {fields : List Field}
    (ended : c.IsEnded)
    (run : itemsUntil close (do let field ← member; endStatement; pure field) n c =
      .ok (fields, c')) :
    ∃ us ws, c.Passes us c' ∧ Spells (body fields) ws ∧ Means us ws := by
  induction n generalizing c fields with
  | zero => exact absurd run fail_ne_ok
  | succ n ih =>
    rw [itemsUntil, isAt_bind] at run
    split at run
    · obtain ⟨rfl, rfl⟩ := pure_eq_ok.1 run
      exact ⟨[], [], .refl ended, none, .refl []⟩
    · rw [isAt_bind] at run
      split at run
      · next here =>
        have semi := Cursor.passes_advance ended (of_decide_eq_true here) nofun
        rw [advance_bind] at run
        obtain ⟨us, ws, behind, spells, means⟩ := ih semi.ended run
        have gone : Means [.op .semicolon] [] :=
          .of_semis fun w mem => List.mem_singleton.1 mem
        exact ⟨_, ws, semi.cons behind, spells, gone.append means⟩
      · obtain ⟨field, c₁, statement, run⟩ := bind_eq_ok.1 run
        obtain ⟨_, c₂, hfield, statement⟩ := bind_eq_ok.1 statement
        obtain ⟨us, ws, first, means, grow⟩ := sound ended hfield
        obtain ⟨_, c₃, hend, last⟩ := bind_eq_ok.1 statement
        obtain ⟨rfl, rfl⟩ := pure_eq_ok.1 last
        obtain ⟨semis, stop, isSemi⟩ := endStatement_sound first.ended hend
        obtain ⟨others, c₄, hothers, last⟩ := bind_eq_ok.1 run
        obtain ⟨rfl, rfl⟩ := pure_eq_ok.1 last
        obtain ⟨us', ws', behind, spells, means'⟩ := ih stop.ended hothers
        refine ⟨_, _, first.trans (stop.trans behind), grow spells, ?_⟩
        have semi : Means [.op .semicolon] [] := .of_semis fun w mem => List.mem_singleton.1 mem
        have gone : Means semis [.op .semicolon] := (Means.of_semis isSemi).trans semi.symm
        simpa only [List.append_assoc, List.cons_append, List.nil_append] using
          means.append (gone.append means')

/-- A body is spelled by its members in braces. -/
theorem bodyOf_sound {member : Parser Field} {body : List Field → Phrase}
    (none : Spells (body []) []) (sound : member.SoundMember body) {fields : List Field}
    (ended : c.IsEnded) (run : bodyOf member c = .ok (fields, c')) :
    ∃ us ws, c.Passes (.op .leftBrace :: us ++ [.op .rightBrace]) c' ∧
      Spells (body fields) ws ∧ Means us ws := by
  obtain ⟨_, c₁, hopen, run⟩ := bind_eq_ok.1 run
  have opening := passes_of_expect ended hopen nofun
  rw [bounded_bind] at run
  obtain ⟨fields', c₂, hfields, run⟩ := bind_eq_ok.1 run
  obtain ⟨us, ws, inside, spells, means⟩ := itemsUntil_sound none sound opening.ended hfields
  obtain ⟨_, c₃, hclose, last⟩ := bind_eq_ok.1 run
  have closing := passes_of_expect inside.ended hclose nofun
  obtain ⟨rfl, rfl⟩ := pure_eq_ok.1 last
  exact ⟨us, ws, opening.cons (inside.trans closing), spells, means⟩

theorem moreNames_sound {n : Nat} {names : List String} (ended : c.IsEnded)
    (run : moreNames n c = .ok (names, c')) :
    c.Passes (names.flatMap fun n => [.op .comma, .ident n]) c' := by
  induction n generalizing c names with
  | zero => exact absurd run fail_ne_ok
  | succ n ih =>
    rw [moreNames, isAt_bind] at run
    split at run
    · next here =>
      have comma := Cursor.passes_advance ended (of_decide_eq_true here) nofun
      rw [advance_bind] at run
      obtain ⟨name, c₁, hname, run⟩ := bind_eq_ok.1 run
      have first := passes_of_ident comma.ended hname
      obtain ⟨others, c₂, hothers, last⟩ := bind_eq_ok.1 run
      obtain ⟨rfl, rfl⟩ := pure_eq_ok.1 last
      exact comma.cons (first.cons (ih first.ended hothers))
    · obtain ⟨rfl, rfl⟩ := pure_eq_ok.1 run
      exact .refl ended

/-- The names of a field are passed with commas between them. -/
theorem fieldNames_sound {names : List String} (ended : c.IsEnded)
    (run : fieldNames c = .ok (names, c')) : c.Passes (spellNames names) c' := by
  rw [fieldNames, ask_bind] at run
  split at run
  · obtain ⟨name, c₁, hname, run⟩ := bind_eq_ok.1 run
    have first := passes_of_ident ended hname
    rw [bounded_bind] at run
    obtain ⟨others, c₂, hothers, last⟩ := bind_eq_ok.1 run
    obtain ⟨rfl, rfl⟩ := pure_eq_ok.1 last
    rw [spellNames_cons]
    exact first.cons (moreNames_sound first.ended hothers)
  · obtain ⟨rfl, rfl⟩ := pure_eq_ok.1 run
    exact .refl ended

theorem fieldTag_sound {tag : Option String} (ended : c.IsEnded)
    (run : fieldTag c = .ok (tag, c')) : c.Passes (spellTag tag) c' := by
  rw [fieldTag, current_bind] at run
  split at run
  · next here =>
    obtain ⟨rfl, rfl⟩ := pure_eq_ok.1 run
    cases hl : c.current.lexeme with
    | literal kind text =>
      cases kind with
      | string => exact Cursor.passes_advance ended hl nofun
      | _ => rw [hl] at here; cases here
    | _ => rw [hl] at here; cases here
  · obtain ⟨rfl, rfl⟩ := pure_eq_ok.1 run
    exact .refl ended

/-- A field of a struct is spelled by its names, its type and its tag. -/
theorem structFieldWith_sound (sound : ty.SoundType) :
    (structFieldWith ty).SoundMember .fields := by
  intro c c' f ended run
  rw [structFieldWith, docHere_bind] at run
  obtain ⟨names, c₁, hnames, run⟩ := bind_eq_ok.1 run
  have first := fieldNames_sound ended hnames
  obtain ⟨x, c₂, hx, run⟩ := bind_eq_ok.1 run
  obtain ⟨us, second, ws, spells, means, _⟩ := sound.sound first.ended hx
  obtain ⟨tag, c₃, htag, run⟩ := bind_eq_ok.1 run
  have third := fieldTag_sound second.ended htag
  rw [commentBehind_bind] at run
  obtain ⟨rfl, rfl⟩ := pure_eq_ok.1 run
  refine ⟨_, spellNames names ++ ws ++ spellTag tag, (first.trans (second.trans third)).claim, ?_,
    fun rest => .moreFields spells rest⟩
  rw [List.append_assoc]
  exact (Means.refl _).append (means.append (.refl _))

/-- A member of an interface is spelled as a method or as an element. -/
theorem interfaceMemberWith_sound (sound : ty.SoundType) :
    (interfaceMemberWith ty).SoundMember .methods := by
  intro c c' f ended run
  rw [interfaceMemberWith, docHere_bind, ask_bind] at run
  split at run
  · obtain ⟨name, c₁, hname, run⟩ := bind_eq_ok.1 run
    have first := passes_of_ident ended hname
    obtain ⟨x, c₂, hx, run⟩ := bind_eq_ok.1 run
    obtain ⟨params, results, us, ws, vs, rfl, second, spells, spells', means, _⟩ :=
      signatureWith_sound sound first.ended hx
    rw [commentBehind_bind] at run
    obtain ⟨rfl, rfl⟩ := pure_eq_ok.1 run
    exact ⟨_, _, (first.cons second).claim, means.cons (.ident name),
      fun rest => .method spells spells' rest⟩
  · obtain ⟨x, c₁, hx, run⟩ := bind_eq_ok.1 run
    obtain ⟨us, passed, ws, spells, means, _⟩ := constraintWith_sound sound.sound ended hx
    rw [commentBehind_bind] at run
    obtain ⟨rfl, rfl⟩ := pure_eq_ok.1 run
    exact ⟨us, ws, passed.claim, means, fun rest => .element spells rest⟩

/-! ## Types -/

/-- A name with its arguments, if there are some, is spelled by what is passed. -/
theorem typeNameWith_sound {x : TypeExpr} (sound : ty.Sound (.expr .type)) (ended : c.IsEnded)
    (run : typeNameWith ty c = .ok (x, c')) :
    x.OpensWith c.current.lexeme ∧ ∃ us, c.Passes us c' ∧ (Phrase.expr .type x).Covers us := by
  obtain ⟨name, c₁, hname, run⟩ := bind_eq_ok.1 run
  have first := passes_of_ident ended hname
  obtain ⟨base, c₂, hbase, run⟩ := bind_eq_ok.1 run
  obtain ⟨us, second, spells⟩ := qualifiedFrom_sound first.ended hbase
  have named := first.cons second
  rw [ask_bind] at run
  split at run
  · next shows =>
    obtain ⟨here, behind⟩ : c₂.current.lexeme = .op .leftBracket ∧
        (c₂.peek 1).lexeme ≠ .op .rightBracket := by
      simpa only [Cursor.showsTypeArgs, Bool.and_eq_true, decide_eq_true_eq] using shows
    have opening := Cursor.passes_advance named.ended here nofun
    rw [advance_bind, bounded_bind] at run
    obtain ⟨args, c₃, hargs, run⟩ := bind_eq_ok.1 run
    obtain ⟨vs, inside, items⟩ := commaItems_sound rfl sound opening.ended hargs
    obtain ⟨_, c₄, hclose, last⟩ := bind_eq_ok.1 run
    have closing := passes_of_expect inside.ended hclose nofun
    obtain ⟨rfl, rfl⟩ := pure_eq_ok.1 last
    refine ⟨trivial, _, named.trans (opening.cons (inside.trans closing)), ?_⟩
    obtain ⟨_, _, empty⟩ | ⟨ws, spells', means⟩ := items
    · rw [Cursor.current_advance] at empty
      exact absurd empty behind
    · refine ⟨_, .generic spells spells', ?_, .append_left _ (.cons _ (.append_left _ ?_))⟩
      · simpa only [List.append_assoc, List.cons_append] using
          (Means.refl (.ident name :: us)).append (means.cons (.op .leftBracket))
      · exact .of_single nofun nofun
  · obtain ⟨rfl, rfl⟩ := pure_eq_ok.1 run
    refine ⟨?_, _, named, _, .typeName spells, .refl _, endsFirmly_of_base spells⟩
    cases spells <;> trivial

/-- A length in brackets and the elements behind it spell an array. -/
theorem arrayWith_sound {x : TypeExpr} (sound : ty.Sound (.expr .type)) (ended : c.IsEnded)
    (run : arrayWith ty c = .ok (x, c')) :
    (∃ elt size, x = .array elt size) ∧ ∃ us, c.Passes us c' ∧
      (Phrase.expr .type x).Covers (.op .leftBracket :: us) := by
  rw [arrayWith, isAt_bind] at run
  split at run
  · next here =>
    have closing := Cursor.passes_advance ended (of_decide_eq_true here) nofun
    rw [advance_bind] at run
    obtain ⟨elt, c₁, helt, last⟩ := bind_eq_ok.1 run
    obtain ⟨rfl, rfl⟩ := pure_eq_ok.1 last
    obtain ⟨us, behind, ws, spells, means, firm⟩ := sound closing.ended helt
    exact ⟨⟨_, _, rfl⟩, _, closing.cons behind, _, .slice spells, (means.cons _).cons _,
      (firm.cons _).cons _⟩
  · rw [isAt_bind] at run
    split at run
    · next here =>
      have dots := Cursor.passes_advance ended (of_decide_eq_true here) nofun
      rw [advance_bind] at run
      obtain ⟨_, c₁, hclose, run⟩ := bind_eq_ok.1 run
      have closing := passes_of_expect dots.ended hclose nofun
      obtain ⟨elt, c₂, helt, last⟩ := bind_eq_ok.1 run
      obtain ⟨rfl, rfl⟩ := pure_eq_ok.1 last
      obtain ⟨us, behind, ws, spells, means, firm⟩ := sound closing.ended helt
      exact ⟨⟨_, _, rfl⟩, _, dots.cons (closing.cons behind), _, .counted spells,
        ((means.cons _).cons _).cons _, ((firm.cons _).cons _).cons _⟩
    · obtain ⟨size, c₁, hsize, run⟩ := bind_eq_ok.1 run
      obtain ⟨us, inside, ws, spells, means, _⟩ := length_sound ended hsize
      obtain ⟨_, c₂, hclose, run⟩ := bind_eq_ok.1 run
      have closing := passes_of_expect inside.ended hclose nofun
      obtain ⟨elt, c₃, helt, last⟩ := bind_eq_ok.1 run
      obtain ⟨rfl, rfl⟩ := pure_eq_ok.1 last
      obtain ⟨us', behind, ws', spells', means', firm⟩ := sound closing.ended helt
      exact ⟨⟨_, _, rfl⟩, _, inside.trans (closing.cons behind), _, .array spells spells',
        (means.append (means'.cons _)).cons _, .cons _ (.append_left _ (firm.cons _))⟩

/-- A key in brackets and the values behind it spell a map. -/
theorem mapWith_sound {x : TypeExpr} (sound : ty.Sound (.expr .type)) (ended : c.IsEnded)
    (run : mapWith ty c = .ok (x, c')) :
    (∃ key value, x = .map key value) ∧ ∃ us, c.Passes us c' ∧
      (Phrase.expr .type x).Covers (.keyword .mapKw :: us) := by
  obtain ⟨_, c₁, hopen, run⟩ := bind_eq_ok.1 run
  have opening := passes_of_expect ended hopen nofun
  obtain ⟨key, c₂, hkey, run⟩ := bind_eq_ok.1 run
  obtain ⟨us, inside, ws, spells, means, _⟩ := sound opening.ended hkey
  obtain ⟨_, c₃, hclose, run⟩ := bind_eq_ok.1 run
  have closing := passes_of_expect inside.ended hclose nofun
  obtain ⟨value, c₄, hvalue, last⟩ := bind_eq_ok.1 run
  obtain ⟨rfl, rfl⟩ := pure_eq_ok.1 last
  obtain ⟨us', behind, ws', spells', means', firm⟩ := sound closing.ended hvalue
  exact ⟨⟨_, _, rfl⟩, _, opening.cons (inside.trans (closing.cons behind)), _,
    .map spells spells', ((means.append (means'.cons _)).cons _).cons _,
    .cons _ (.cons _ (.append_left _ (firm.cons _)))⟩

/-- A channel is spelled with its direction; one to receive from is spelled elsewhere. -/
theorem channelWith_sound {x : TypeExpr} (sound : ty.SoundType) (ended : c.IsEnded)
    (run : channelWith ty c = .ok (x, c')) :
    (∃ dir value, x = .channel dir value ∧ dir ≠ .receive) ∧ ∃ us, c.Passes us c' ∧
      (Phrase.expr .type x).Covers (.keyword .chanKw :: us) := by
  rw [channelWith, isAt_bind] at run
  split at run
  · next here =>
    have arrow := Cursor.passes_advance ended (of_decide_eq_true here) nofun
    rw [advance_bind] at run
    obtain ⟨value, c₁, hvalue, last⟩ := bind_eq_ok.1 run
    obtain ⟨rfl, rfl⟩ := pure_eq_ok.1 last
    obtain ⟨us, behind, ws, spells, means, firm⟩ := sound.sound arrow.ended hvalue
    exact ⟨⟨_, _, rfl, nofun⟩, _, arrow.cons behind, _, .channelSend spells, (means.cons _).cons _,
      (firm.cons _).cons _⟩
  · next elsewhere =>
    obtain ⟨value, c₁, hvalue, last⟩ := bind_eq_ok.1 run
    obtain ⟨rfl, rfl⟩ := pure_eq_ok.1 last
    obtain ⟨opens, us, behind, ws, spells, means, firm⟩ := sound ended hvalue
    refine ⟨⟨_, _, rfl, nofun⟩, us, behind, _, .channel ?_ spells, means.cons _, firm.cons _⟩
    rintro y rfl
    exact elsewhere (decide_eq_true opens)

/-- Each form of a type is spelled by the lexemes that it has been parsed from, provided that the types
inside of it are. One case for each lexeme that a type can begin with. -/
theorem typeWith_sound (sound : ty.SoundType) : (typeWith ty).SoundType := by
  intro c c' x ended run
  rw [typeWith, current_bind] at run
  generalize here : c.current.lexeme = w at run
  split at run
  · rw [← here]
    exact typeNameWith_sound sound.sound ended run
  · have star := Cursor.passes_advance ended here nofun
    rw [advance_bind] at run
    obtain ⟨y, c₁, hy, last⟩ := bind_eq_ok.1 run
    obtain ⟨rfl, rfl⟩ := pure_eq_ok.1 last
    obtain ⟨us, behind, covers⟩ := sound.sound star.ended hy
    exact ⟨trivial, _, star.cons behind, covers.cons _ .pointer⟩
  · have bracket := Cursor.passes_advance ended here nofun
    rw [advance_bind] at run
    obtain ⟨⟨elt, size, rfl⟩, us, behind, covers⟩ := arrayWith_sound sound.sound bracket.ended run
    exact ⟨trivial, _, bracket.cons behind, covers⟩
  · have word := Cursor.passes_advance ended here nofun
    rw [advance_bind] at run
    obtain ⟨⟨key, value, rfl⟩, us, behind, covers⟩ := mapWith_sound sound.sound word.ended run
    exact ⟨trivial, _, word.cons behind, covers⟩
  · have word := Cursor.passes_advance ended here nofun
    rw [advance_bind] at run
    obtain ⟨⟨dir, value, rfl, other⟩, us, behind, covers⟩ := channelWith_sound sound word.ended run
    refine ⟨?_, _, word.cons behind, covers⟩
    cases dir with
    | receive => exact absurd rfl other
    | _ => trivial
  · have arrow := Cursor.passes_advance ended here nofun
    rw [advance_bind] at run
    obtain ⟨_, c₁, hword, run⟩ := bind_eq_ok.1 run
    have word := passes_of_expect arrow.ended hword nofun
    obtain ⟨value, c₂, hvalue, last⟩ := bind_eq_ok.1 run
    obtain ⟨rfl, rfl⟩ := pure_eq_ok.1 last
    obtain ⟨us, behind, ws, spells, means, firm⟩ := sound.sound word.ended hvalue
    exact ⟨rfl, _, arrow.cons (word.cons behind), _, .channelReceive spells, (means.cons _).cons _,
      (firm.cons _).cons _⟩
  · have word := Cursor.passes_advance ended here nofun
    rw [advance_bind] at run
    obtain ⟨params, results, us, ws, vs, rfl, behind, spells, spells', means, firm⟩ :=
      signatureWith_sound sound word.ended run
    exact ⟨trivial, _, word.cons behind, _, .func spells spells', means.cons _, firm.cons _⟩
  · obtain ⟨_, c₁, hword, run⟩ := bind_eq_ok.1 run
    have word := passes_of_expect ended hword nofun
    obtain ⟨fields, c₂, hfields, last⟩ := bind_eq_ok.1 run
    obtain ⟨rfl, rfl⟩ := pure_eq_ok.1 last
    obtain ⟨us, ws, behind, spells, means⟩ :=
      bodyOf_sound .noFields (structFieldWith_sound sound) word.ended hfields
    exact ⟨trivial, _, word.cons behind, _, .struct spells,
      ((means.append (.refl _)).cons _).cons _,
      .cons _ (.append_left _ (.of_single nofun nofun))⟩
  · obtain ⟨_, c₁, hword, run⟩ := bind_eq_ok.1 run
    have word := passes_of_expect ended hword nofun
    obtain ⟨methods, c₂, hmethods, last⟩ := bind_eq_ok.1 run
    obtain ⟨rfl, rfl⟩ := pure_eq_ok.1 last
    obtain ⟨us, ws, behind, spells, means⟩ :=
      bodyOf_sound .noMethods (interfaceMemberWith_sound sound) word.ended hmethods
    exact ⟨trivial, _, word.cons behind, _, .interface spells,
      ((means.append (.refl _)).cons _).cons _,
      .cons _ (.append_left _ (.of_single nofun nofun))⟩
  · have opening := Cursor.passes_advance ended here nofun
    rw [advance_bind] at run
    obtain ⟨y, c₁, hy, run⟩ := bind_eq_ok.1 run
    obtain ⟨us, inside, ws, spells, means, _⟩ := sound.sound opening.ended hy
    obtain ⟨_, c₂, hclose, last⟩ := bind_eq_ok.1 run
    have closing := passes_of_expect inside.ended hclose nofun
    obtain ⟨rfl, rfl⟩ := pure_eq_ok.1 last
    exact ⟨rfl, _, opening.cons (inside.trans closing), _, .paren spells,
      (means.append (.refl _)).cons _, .cons _ (.append_left _ (.of_single nofun nofun))⟩
  · exact absurd run fail_ne_ok

/-- By induction on the levels: the types inside of a type have one level less. -/
theorem typeWithin_sound (n : Nat) : (typeWithin n).SoundType := by
  induction n with
  | zero => exact fun _ run => absurd run fail_ne_ok
  | succ n ih => exact typeWith_sound ih

theorem type_sound : type.SoundType := fun ended run => typeWithin_sound _ ended run

/-! ## Whole sources -/

/-- Where nothing but semicolons may follow, nothing else does. -/
theorem eq_semicolon_of_expectEnd (ended : c.IsEnded) (tokens : ∀ w ∈ c.ahead, w ≠ .eof)
    (run : expectEnd c = .ok ((), c')) : ∀ w ∈ c.ahead, w = .op .semicolon := by
  obtain ⟨semis, passed, isSemi⟩ := Cursor.passes_passSemis ended
  rw [expectEnd, passSemis_bind, isAt_bind] at run
  split at run
  · next here =>
    have atEnd : c.passSemis.ahead.headD c.passSemis.stop.lexeme = .eof := by
      rw [← Cursor.current_lexeme]
      exact of_decide_eq_true here
    rw [passed.ahead_eq] at tokens ⊢
    cases rest : c.passSemis.ahead with
    | nil => simpa only [List.append_nil] using isSemi
    | cons w ws =>
      rw [rest] at atEnd tokens
      exact absurd atEnd (tokens w (List.mem_append_right _ (List.mem_cons_self ..)))
  · exact absurd run fail_ne_ok

theorem ahead_ofLayout (layout : Layout) :
    (Cursor.ofLayout layout).ahead = layout.tokens.map Token.lexeme := rfl

end Parser

open Typings.Parser in
/-- The tokens of an accepted source spell the type that it gives, semicolons and closing commas
aside. -/
theorem TypeExpr.spells_of_parse {source : String} {x : TypeExpr}
    (h : TypeExpr.parse source = .ok x) :
    ∃ layout ws, Layout.ofSource source = .ok layout ∧ Spells (.expr .constraint x) ws ∧
      essence (layout.tokens.map Token.lexeme) = essence ws := by
  unfold TypeExpr.parse Parser.run at h
  split at h
  · cases h
  · next layout scanned =>
    split at h
    · cases h
    · next y c' run =>
      cases h
      have ended : (Cursor.ofLayout layout).IsEnded := rfl
      obtain ⟨y, c₁, hy, run⟩ := bind_eq_ok.1 run
      obtain ⟨us, passed, ws, spells, means, _⟩ := constraintWith_sound type_sound.sound ended hy
      obtain ⟨_, c₂, hend, last⟩ := bind_eq_ok.1 run
      obtain ⟨rfl, rfl⟩ := pure_eq_ok.1 last
      have tokens : ∀ w ∈ (Cursor.ofLayout layout).ahead, w ≠ .eof := by
        intro w mem
        obtain ⟨t, ht, rfl⟩ := List.mem_map.1 mem
        exact Layout.lexeme_ne_eof scanned ht
      rw [passed.ahead_eq] at tokens
      have semis := eq_semicolon_of_expectEnd passed.ended
        (fun w mem => tokens w (List.mem_append_right _ mem)) hend
      have whole : Means (layout.tokens.map Token.lexeme) ws := by
        rw [← ahead_ofLayout, passed.ahead_eq]
        simpa only [List.append_nil] using means.append (.of_semis semis)
      exact ⟨layout, ws, scanned, spells, whole.essence_eq⟩

/-- The tokens of an accepted source spell the type that it gives, semicolons and closing commas
aside, and no list in the type mixes named and unnamed entries. -/
theorem TypeExpr.essence_tokens_of_parse {source : String} {x : TypeExpr}
    (h : TypeExpr.parse source = .ok x) :
    ∃ layout ws, Layout.ofSource source = .ok layout ∧ Spells (.expr .constraint x) ws ∧
      essence (layout.tokens.map Token.lexeme) = essence ws ∧
      ∀ fields ∈ x.signatureLists, Field.Uniform fields := by
  obtain ⟨layout, ws, scanned, spells, same⟩ := spells_of_parse h
  exact ⟨layout, ws, scanned, spells, same, spells.uniform⟩

/-- A source with a comma before a closing bracket and a result in parentheses. -/
theorem TypeExpr.essence_tokens_of_parse_func :
    ∃ x, TypeExpr.parse "func(a, b int,) (error)" = .ok x ∧ ∃ layout ws,
      Layout.ofSource "func(a, b int,) (error)" = .ok layout ∧ Spells (.expr .constraint x) ws ∧
      essence (layout.tokens.map Token.lexeme) = essence ws ∧
      ∀ fields ∈ x.signatureLists, Field.Uniform fields := by
  have accepted : (TypeExpr.parse "func(a, b int,) (error)").isOk = true := by decide +kernel
  cases h : TypeExpr.parse "func(a, b int,) (error)" with
  | error e =>
    rw [h] at accepted
    cases accepted
  | ok x => exact ⟨x, rfl, essence_tokens_of_parse h⟩

end Typings
