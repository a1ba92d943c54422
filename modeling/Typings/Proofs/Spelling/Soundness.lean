import Typings.Proofs.Parser.Steps
import Typings.Proofs.Spelling.Entries
import Typings.Proofs.Spelling.Essential

/-!
# What a parser passes spells what it gives

The lexemes between the cursor where a production starts and the one where it succeeds spell its
value, semicolons and closing commas aside. Each production is followed step by step, given the same
of the parser for the types inside it (`typeWith_sound`); the levels of nesting are tied at the end
(`type_sound`).
-/

namespace Typings

/-- Some lexemes spell a phrase, semicolons and closing commas aside, and do not end in one of
these. -/
def Phrase.Covers (p : Phrase) (us : List Lexeme) : Prop :=
  ∃ ws, Spells p ws ∧ Means us ws ∧ EndsFirmly us

theorem Phrase.Covers.imp {p q : Phrase} {us : List Lexeme}
    (rule : ∀ {ws}, Spells p ws → Spells q ws) (h : p.Covers us) : q.Covers us := by
  obtain ⟨ws, spells, means, firm⟩ := h
  exact ⟨ws, rule spells, means, firm⟩

/-- A rule that puts one lexeme in front. -/
theorem Phrase.Covers.cons {p q : Phrase} {us : List Lexeme} (w : Lexeme)
    (rule : ∀ {ws}, Spells p ws → Spells q (w :: ws)) (h : p.Covers us) : q.Covers (w :: us) := by
  obtain ⟨ws, spells, means, firm⟩ := h
  exact ⟨w :: ws, rule spells, means.cons w, firm.cons w⟩

namespace Parser

/-- What the parser passes covers what it gives. -/
def Sound {α : Type} (p : Parser α) (phrase : α → Phrase) : Prop :=
  ∀ {c c' : Cursor} {x : α}, c.IsEnded → p c = .ok (x, c') →
    ∃ us, c.Passes us c' ∧ (phrase x).Covers us

variable {c c' : Cursor}

/-! ## Names -/

/-- A name, with that of a package before it or not, is spelled by what is passed. -/
theorem qualifiedFrom_sound {name : String} {x : TypeExpr} (ended : c.IsEnded)
    (run : qualifiedFrom name c = .ok (x, c')) :
    ∃ us, c.Passes us c' ∧ Spells (.expr .base x) (.ident name :: us) := by
  rw [qualifiedFrom, isAt_bind] at run
  split at run
  · next here =>
    have dot := Cursor.passes_advance ended (of_decide_eq_true here) nofun
    rw [advance_bind] at run
    obtain ⟨sel, c₁, hsel, last⟩ := bind_eq_ok.1 run
    obtain ⟨rfl, rfl⟩ := pure_eq_ok.1 last
    exact ⟨_, dot.trans (passes_of_ident dot.ended hsel), .selector⟩
  · obtain ⟨rfl, rfl⟩ := pure_eq_ok.1 run
    exact ⟨[], .refl ended, .name⟩

/-- The spelling of a possibly qualified name ends in a name. -/
theorem endsFirmly_of_base {x : TypeExpr} {ws : List Lexeme} (h : Spells (.expr .base x) ws) :
    EndsFirmly ws := by
  cases h with
  | name => exact .of_single nofun nofun
  | selector => exact .append_left [_, _] (.of_single nofun nofun)

/-! ## Repetitions -/

/-- Items with commas between them. There are none if the closing bracket comes at once; a comma may
stand behind the last. -/
theorem commaItems_sound {kind : ExprKind} {close : Lexeme} {item : Parser TypeExpr}
    (closes : close.closes = true) (sound : item.Sound (.expr kind)) {n : Nat}
    {xs : List TypeExpr} (ended : c.IsEnded) (run : commaItems close item n c = .ok (xs, c')) :
    ∃ us, c.Passes us c' ∧ (xs = [] ∧ us = [] ∧ c.current.lexeme = close ∨
      ∃ ws, Spells (.exprs kind xs) ws ∧ Means (us ++ [close]) (ws ++ [close])) := by
  induction n generalizing c xs with
  | zero => exact absurd run fail_ne_ok
  | succ n ih =>
    rw [commaItems, isAt_bind] at run
    split at run
    · next here =>
      obtain ⟨rfl, rfl⟩ := pure_eq_ok.1 run
      exact ⟨[], .refl ended, .inl ⟨rfl, rfl, of_decide_eq_true here⟩⟩
    · obtain ⟨x, c₁, hx, run⟩ := bind_eq_ok.1 run
      obtain ⟨us, first, ws, spells, means, firm⟩ := sound ended hx
      rw [isAt_bind] at run
      split at run
      · next here =>
        have comma := Cursor.passes_advance first.ended (of_decide_eq_true here) nofun
        rw [advance_bind] at run
        obtain ⟨ys, c₂, hys, last⟩ := bind_eq_ok.1 run
        obtain ⟨rfl, rfl⟩ := pure_eq_ok.1 last
        obtain ⟨vs, behind, rest⟩ := ih comma.ended hys
        refine ⟨us ++ .op .comma :: vs, first.trans (comma.cons behind), .inr ?_⟩
        obtain ⟨rfl, rfl, _⟩ | ⟨ws', spells', means'⟩ := rest
        · refine ⟨ws, .one spells, ?_⟩
          simpa only [List.append_assoc, List.cons_append, List.nil_append] using
            (Means.drop_comma firm closes).trans (means.append (.refl [close]))
        · refine ⟨ws ++ .op .comma :: ws', .more spells spells', ?_⟩
          simpa only [List.append_assoc, List.cons_append] using
            means.append (means'.cons (.op .comma))
      · obtain ⟨rfl, rfl⟩ := pure_eq_ok.1 run
        exact ⟨us, first, .inr ⟨ws, .one spells, means.append (.refl [close])⟩⟩

/-- Operands with operators before them, behind anything that they may continue. -/
theorem operandsAfter_sound {whole part : ExprKind} {isOperator : Lexeme → Bool}
    {operand : Parser TypeExpr} (sound : operand.Sound (.expr part))
    (operator_ne : ∀ {w}, isOperator w = true → w ≠ .eof)
    (rule : ∀ {w x y us vs}, isOperator w = true → Spells (.expr whole x) us →
      Spells (.expr part y) vs → Spells (.expr whole (.binary x w.text y)) (us ++ w :: vs))
    {n : Nat} {more : List (String × TypeExpr)} (ended : c.IsEnded)
    (run : operandsAfter isOperator operand n c = .ok (more, c')) :
    ∃ us, c.Passes us c' ∧ ∀ {x vs}, (Phrase.expr whole x).Covers vs →
      (Phrase.expr whole (more.foldl (fun x (op, y) => .binary x op y) x)).Covers (vs ++ us) := by
  induction n generalizing c more with
  | zero => exact absurd run fail_ne_ok
  | succ n ih =>
    rw [operandsAfter, current_bind] at run
    split at run
    · next here =>
      have sign := Cursor.passes_advance ended rfl (operator_ne here)
      rw [advance_bind] at run
      obtain ⟨y, c₁, hy, run⟩ := bind_eq_ok.1 run
      obtain ⟨us, first, ws, spells, means, firm⟩ := sound sign.ended hy
      obtain ⟨ys, c₂, hys, last⟩ := bind_eq_ok.1 run
      obtain ⟨rfl, rfl⟩ := pure_eq_ok.1 last
      obtain ⟨vs, behind, grow⟩ := ih first.ended hys
      refine ⟨_, (sign.cons first).trans behind, ?_⟩
      rintro x us' ⟨ws', spells', means', _⟩
      have step : (Phrase.expr whole (.binary x c.current.lexeme.text y)).Covers
          (us' ++ c.current.lexeme :: us) :=
        ⟨_, rule here spells' spells, means'.append (means.cons _), .append_left _ (firm.cons _)⟩
      simpa only [List.append_assoc, List.cons_append, List.foldl_cons] using grow step
    · obtain ⟨rfl, rfl⟩ := pure_eq_ok.1 run
      exact ⟨[], .refl ended, fun h => by simpa only [List.append_nil, List.foldl_nil] using h⟩

/-- Operands with operators between them spell what they are put together to. -/
theorem chain_sound {whole part : ExprKind} {isOperator : Lexeme → Bool}
    {operand : Parser TypeExpr} (sound : operand.Sound (.expr part))
    (operator_ne : ∀ {w}, isOperator w = true → w ≠ .eof)
    (base : ∀ {x ws}, Spells (.expr part x) ws → Spells (.expr whole x) ws)
    (rule : ∀ {w x y us vs}, isOperator w = true → Spells (.expr whole x) us →
      Spells (.expr part y) vs → Spells (.expr whole (.binary x w.text y)) (us ++ w :: vs)) :
    (chain isOperator operand).Sound (.expr whole) := by
  intro c c' x ended run
  obtain ⟨first, c₁, hfirst, run⟩ := bind_eq_ok.1 run
  obtain ⟨us, passed, covers⟩ := sound ended hfirst
  rw [bounded_bind] at run
  obtain ⟨more, c₂, hmore, last⟩ := bind_eq_ok.1 run
  obtain ⟨rfl, rfl⟩ := pure_eq_ok.1 last
  obtain ⟨vs, behind, grow⟩ := operandsAfter_sound sound operator_ne rule passed.ended hmore
  exact ⟨us ++ vs, passed.trans behind, grow (covers.imp base)⟩

/-! ## Array lengths -/

theorem ne_eof_of_isLengthOperator {w : Lexeme} (h : isLengthOperator w = true) : w ≠ .eof := by
  rintro rfl
  cases h

/-- An operator between a length and an operand spells a length. -/
theorem spells_arithmetic {w : Lexeme} {x y : TypeExpr} {us vs : List Lexeme}
    (h : isLengthOperator w = true) (left : Spells (.expr .length x) us)
    (right : Spells (.expr .operand y) vs) :
    Spells (.expr .length (.binary x w.text y)) (us ++ w :: vs) := by
  cases w with
  | op op => exact .arithmetic h left right
  | _ => cases h

/-- A length is spelled by its operands and operators. -/
theorem lengths_sound {operand : Parser TypeExpr} (sound : operand.Sound (.expr .operand)) :
    (chain isLengthOperator operand).Sound (.expr .length) :=
  chain_sound sound ne_eof_of_isLengthOperator .lengthOperand spells_arithmetic

theorem isSign_iff {w : Lexeme} : isSign w = true ↔ ∃ op, w = .op op ∧ isSign (.op op) = true := by
  constructor
  · intro h
    cases w with
    | op op => exact ⟨op, rfl, h⟩
    | _ => cases h
  · rintro ⟨op, rfl, h⟩
    exact h

/-- An operand of a length is spelled by what is passed, as the operands inside of it are. -/
theorem lengthOperandWith_sound {operand : Parser TypeExpr}
    (sound : operand.Sound (.expr .operand)) :
    (lengthOperandWith operand).Sound (.expr .operand) := by
  intro c c' x ended run
  rw [lengthOperandWith, current_bind] at run
  generalize here : c.current.lexeme = w at run
  split at run
  · next kind text =>
    rw [advance_bind] at run
    obtain ⟨rfl, rfl⟩ := pure_eq_ok.1 run
    exact ⟨_, Cursor.passes_advance ended here nofun, _, .literal, .refl _,
      .of_single nofun nofun⟩
  · next name =>
    have first := Cursor.passes_advance ended here nofun
    rw [advance_bind] at run
    obtain ⟨fn, c₁, hfn, run⟩ := bind_eq_ok.1 run
    obtain ⟨us, behind, base⟩ := qualifiedFrom_sound first.ended hfn
    have named := first.cons behind
    have firm := endsFirmly_of_base base
    rw [isAt_bind] at run
    split at run
    · next here =>
      have opening := Cursor.passes_advance named.ended (of_decide_eq_true here) nofun
      rw [advance_bind, bounded_bind] at run
      obtain ⟨args, c₂, hargs, run⟩ := bind_eq_ok.1 run
      obtain ⟨vs, inside, items⟩ := commaItems_sound rfl (lengths_sound sound) opening.ended hargs
      obtain ⟨t, c₃, hclose, last⟩ := bind_eq_ok.1 run
      have closing := passes_of_expect inside.ended hclose nofun
      obtain ⟨rfl, rfl⟩ := pure_eq_ok.1 last
      refine ⟨_, named.trans (opening.cons (inside.trans closing)), ?_⟩
      have close_firm : EndsFirmly [Lexeme.op .rightParen] := .of_single nofun nofun
      obtain ⟨rfl, rfl, _⟩ | ⟨ws, spells, means⟩ := items
      · exact ⟨_, .callEmpty base, .refl _, .append_left _ (close_firm.cons _)⟩
      · refine ⟨_, .call base spells, ?_, .append_left _ (.cons _ (.append_left _ close_firm))⟩
        simpa only [List.append_assoc, List.cons_append] using
          (Means.refl (.ident name :: us)).append (means.cons (.op .leftParen))
    · obtain ⟨rfl, rfl⟩ := pure_eq_ok.1 run
      exact ⟨_, named, _, .operandName base, .refl _, firm⟩
  · have opening := Cursor.passes_advance ended here nofun
    rw [advance_bind] at run
    obtain ⟨inner, c₁, hinner, run⟩ := bind_eq_ok.1 run
    obtain ⟨us, inside, ws, spells, means, _⟩ := lengths_sound sound opening.ended hinner
    obtain ⟨t, c₂, hclose, last⟩ := bind_eq_ok.1 run
    have closing := passes_of_expect inside.ended hclose nofun
    obtain ⟨rfl, rfl⟩ := pure_eq_ok.1 last
    exact ⟨_, opening.cons (inside.trans closing), _, .parenLength spells,
      (means.append (.refl _)).cons _, .cons _ (.append_left _ (.of_single nofun nofun))⟩
  · split at run
    · next hsign =>
      obtain ⟨op, rfl, hop⟩ := isSign_iff.1 hsign
      have opening := Cursor.passes_advance ended here nofun
      rw [advance_bind] at run
      obtain ⟨y, c₁, hy, last⟩ := bind_eq_ok.1 run
      obtain ⟨rfl, rfl⟩ := pure_eq_ok.1 last
      obtain ⟨us, behind, covers⟩ := sound opening.ended hy
      exact ⟨_, opening.cons behind, covers.cons _ (.sign hop)⟩
    · exact absurd run fail_ne_ok

/-- By induction on the levels. -/
theorem lengthOperandWithin_sound (n : Nat) : (lengthOperandWithin n).Sound (.expr .operand) := by
  induction n with
  | zero => exact fun _ run => absurd run fail_ne_ok
  | succ n ih => exact lengthOperandWith_sound ih

theorem length_sound : length.Sound (.expr .length) :=
  lengths_sound fun ended run => lengthOperandWithin_sound _ ended run

/-! ## Constraints -/

theorem constraintTerm_sound {ty : Parser TypeExpr} (sound : ty.Sound (.expr .type)) :
    (constraintTerm ty).Sound (.expr .term) := by
  intro c c' x ended run
  rw [constraintTerm, isAt_bind] at run
  split at run
  · next here =>
    have tilde := Cursor.passes_advance ended (of_decide_eq_true here) nofun
    rw [advance_bind] at run
    obtain ⟨y, c₁, hy, last⟩ := bind_eq_ok.1 run
    obtain ⟨rfl, rfl⟩ := pure_eq_ok.1 last
    obtain ⟨us, behind, covers⟩ := sound tilde.ended hy
    exact ⟨_, tilde.cons behind, covers.cons _ .tilde⟩
  · obtain ⟨us, passed, covers⟩ := sound ended run
    exact ⟨us, passed, covers.imp .termType⟩

/-- A constraint is spelled by its terms, with bars between them. -/
theorem constraintWith_sound {ty : Parser TypeExpr} (sound : ty.Sound (.expr .type)) :
    (constraintWith ty).Sound (.expr .constraint) := by
  refine chain_sound (constraintTerm_sound sound) ?_ .constraintTerm ?_
  · intro w h
    rw [of_decide_eq_true h]
    exact nofun
  · intro w x y us vs h left right
    rw [of_decide_eq_true h]
    exact .union left right

/-! ## Lists of fields -/

/-- The type of an entry is spelled with its dots, if there are some. -/
theorem orVariadic_sound {ty : Parser TypeExpr} (sound : ty.Sound (.expr .type)) :
    (orVariadic ty ty).Sound (.expr .entry) := by
  intro c c' x ended run
  rw [orVariadic, isAt_bind] at run
  split at run
  · next here =>
    have dots := Cursor.passes_advance ended (of_decide_eq_true here) nofun
    rw [advance_bind] at run
    obtain ⟨elt, c₁, helt, last⟩ := bind_eq_ok.1 run
    obtain ⟨rfl, rfl⟩ := pure_eq_ok.1 last
    obtain ⟨us, behind, covers⟩ := sound dots.ended helt
    exact ⟨_, dots.cons behind, covers.cons _ .variadic⟩
  · obtain ⟨us, passed, covers⟩ := sound ended run
    exact ⟨us, passed, covers.imp .entryType⟩

/-- An entry of a list that is no type-parameter list, whatever comment is behind it. -/
theorem nameAndType_sound {ty : Parser TypeExpr} {close : Lexeme} {name : Option String}
    {x : TypeExpr} (sound : ty.Sound (.expr .type)) (ended : c.IsEnded)
    (run : nameAndType ty close false c = .ok ((name, x), c')) :
    ∃ us ws, c.Passes us c' ∧ (∀ comment, (Entry.mk name x comment).Spelled ws) ∧ Means us ws ∧
      EndsFirmly us := by
  rw [nameAndType, isAt_bind] at run
  split at run
  · obtain ⟨y, c₁, hy, last⟩ := bind_eq_ok.1 run
    obtain ⟨same, rfl⟩ := pure_eq_ok.1 last
    cases same
    obtain ⟨us, passed, ws, spells, means, firm⟩ := orVariadic_sound sound ended hy
    exact ⟨us, ws, passed, fun _ => ⟨ws, spells, rfl⟩, means, firm⟩
  · rw [ask_bind] at run
    split at run
    · obtain ⟨n, c₁, hn, run⟩ := bind_eq_ok.1 run
      have first := passes_of_ident ended hn
      obtain ⟨y, c₂, hy, last⟩ := bind_eq_ok.1 run
      obtain ⟨same, rfl⟩ := pure_eq_ok.1 last
      cases same
      obtain ⟨us, behind, ws, spells, means, firm⟩ := sound first.ended hy
      exact ⟨_, _, first.cons behind, fun _ => ⟨ws, .entryType spells, rfl⟩, means.cons _,
        firm.cons _⟩
    · obtain ⟨y, c₁, hy, run⟩ := bind_eq_ok.1 run
      obtain ⟨us, passed, ws, spells, means, firm⟩ := sound ended hy
      split at run
      · next n =>
        rw [current_bind] at run
        split at run
        · obtain ⟨same, rfl⟩ := pure_eq_ok.1 run
          cases same
          exact ⟨us, ws, passed, fun _ => ⟨ws, .entryType spells, rfl⟩, means, firm⟩
        · obtain ⟨z, c₂, hz, last⟩ := bind_eq_ok.1 run
          obtain ⟨same, rfl⟩ := pure_eq_ok.1 last
          cases same
          obtain ⟨vs, behind, ws', spells', means', firm'⟩ :=
            orVariadic_sound sound passed.ended hz
          obtain rfl := Spells.eq_of_entry_name (.entryType spells)
          exact ⟨_, _, passed.trans behind, fun _ => ⟨ws', spells', rfl⟩, means.append means',
            .append_left _ firm'⟩
      · obtain ⟨same, rfl⟩ := pure_eq_ok.1 run
        cases same
        exact ⟨us, ws, passed, fun _ => ⟨ws, .entryType spells, rfl⟩, means, firm⟩

/-- Entries up to a closing bracket. There may be none; a comma may stand behind the last. -/
theorem entriesUntil_sound {ty : Parser TypeExpr} {close : Lexeme}
    (sound : ty.Sound (.expr .type)) (closes : close.closes = true) {n : Nat} {es : List Entry}
    (ended : c.IsEnded)
    (run : entriesUntil close (nameAndType ty close false) n c = .ok (es, c')) :
    ∃ us, c.Passes us c' ∧ (es = [] ∧ us = [] ∨
      ∃ ws, EntriesSpelled es ws ∧ Means (us ++ [close]) (ws ++ [close])) := by
  induction n generalizing c es with
  | zero => exact absurd run fail_ne_ok
  | succ n ih =>
    rw [entriesUntil, isAt_bind] at run
    split at run
    · obtain ⟨rfl, rfl⟩ := pure_eq_ok.1 run
      exact ⟨[], .refl ended, .inl ⟨rfl, rfl⟩⟩
    · obtain ⟨⟨name, x⟩, c₁, hx, run⟩ := bind_eq_ok.1 run
      obtain ⟨us, ws, first, spelled, means, firm⟩ := nameAndType_sound sound ended hx
      dsimp only at run
      rw [isAt_bind] at run
      split at run
      · next here =>
        have comma := Cursor.passes_advance first.ended (of_decide_eq_true here) nofun
        rw [advance_bind, commentBehind_bind, passSemis_bind] at run
        obtain ⟨semis, skipped, isSemi⟩ := Cursor.passes_passSemis comma.claim.ended
        obtain ⟨es', c₂, hes, last⟩ := bind_eq_ok.1 run
        obtain ⟨rfl, rfl⟩ := pure_eq_ok.1 last
        obtain ⟨vs, behind, rest⟩ := ih skipped.ended hes
        refine ⟨us ++ .op .comma :: (semis ++ vs),
          first.trans (comma.claim.cons (skipped.trans behind)), .inr ?_⟩
        have gone : Means semis [] := .of_semis isSemi
        obtain ⟨rfl, rfl⟩ | ⟨ws', spelled', means'⟩ := rest
        · refine ⟨ws, .one (spelled _), ?_⟩
          have tail : Means (us ++ .op .comma :: (semis ++ [] ++ [close]))
              (us ++ [.op .comma, close]) := by
            rw [List.append_nil]
            exact (Means.refl us).append ((gone.append (.refl [close])).cons _)
          simpa only [List.append_assoc, List.cons_append, List.nil_append] using
            tail.trans ((Means.drop_comma firm closes).trans (means.append (.refl [close])))
        · refine ⟨ws ++ .op .comma :: ws', .more (spelled _) spelled', ?_⟩
          simpa only [List.append_assoc, List.cons_append, List.nil_append] using
            means.append ((gone.append means').cons (.op .comma))
      · rw [commentBehind_bind, passSemis_bind] at run
        obtain ⟨semis, skipped, isSemi⟩ := Cursor.passes_passSemis first.claim.ended
        obtain ⟨rfl, rfl⟩ := pure_eq_ok.1 run
        refine ⟨us ++ semis, first.claim.trans skipped, .inr ⟨ws, .one (spelled _), ?_⟩⟩
        simpa only [List.append_nil] using
          (means.append (Means.of_semis isSemi)).append (.refl [close])

/-- A parameter list is spelled by what is passed, a comma at its end left out. -/
theorem paramsWith_sound {ty : Parser TypeExpr} (sound : ty.Sound (.expr .type)) :
    (paramsWith ty).Sound .params := by
  intro c c' fields ended run
  obtain ⟨_, c₁, hopen, run⟩ := bind_eq_ok.1 run
  have opening := passes_of_expect ended hopen nofun
  rw [passSemis_bind, bounded_bind] at run
  obtain ⟨semis, skipped, isSemi⟩ := Cursor.passes_passSemis opening.ended
  obtain ⟨es, c₂, hes, run⟩ := bind_eq_ok.1 run
  obtain ⟨us, inside, items⟩ := entriesUntil_sound sound rfl skipped.ended hes
  obtain ⟨_, c₃, hclose, last⟩ := bind_eq_ok.1 run
  have closing := passes_of_expect inside.ended hclose nofun
  have gone : Means semis [] := .of_semis isSemi
  have firm : EndsFirmly [Lexeme.op .rightParen] := .of_single nofun nofun
  cases hfields : fieldsOf es with
  | error cause =>
    rw [hfields] at last
    exact absurd last fail_ne_ok
  | ok fields' =>
    rw [hfields] at last
    obtain ⟨rfl, rfl⟩ := pure_eq_ok.1 last
    refine ⟨_, opening.cons (skipped.trans (inside.trans closing)), ?_⟩
    obtain ⟨rfl, rfl⟩ | ⟨ws, spelled, means⟩ := items
    · cases hfields
      exact ⟨_, .noParams, (gone.append (.refl _)).cons _,
        .cons _ (.append_left _ firm)⟩
    · obtain ⟨named, spells⟩ := Spells.of_fieldsOf spelled hfields
      exact ⟨_, .someParams spells, (gone.append means).cons _,
        .cons _ (.append_left _ (.append_left _ firm))⟩

end Parser

end Typings
