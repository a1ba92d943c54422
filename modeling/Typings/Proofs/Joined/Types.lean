import Typings.Proofs.Joined.Framed
import Typings.Proofs.Spelling.Lookahead
import Typings.Proofs.Spelling.Lossless

/-!
# Types inside a longer source

The productions for types are framed (`Parser.type_framed`). Two of them look ahead for the bracket that
closes the one behind a name; if a type is read there, that bracket is part of it (`Brackets`), so that
the look never goes on into what is behind the source.
-/

namespace Typings.Parser

/-! ## Brackets -/

/-- Semicolons close no bracket. -/
theorem closesBracket_dropSemis (depth : Int) (us : List Lexeme) :
    closesBracket depth (dropSemis us) = closesBracket depth us := by
  induction us generalizing depth with
  | nil => rfl
  | cons w us ih =>
    by_cases semi : w = .op .semicolon
    · rw [semi, closesBracket_cons (w := .op .semicolon) (by simp) (by simp), ← ih]
      rfl
    · rw [dropSemis_cons us semi, closesBracket.eq_def, closesBracket.eq_def depth (w :: us)]
      split <;> simp_all

/-- Commas close no bracket. -/
theorem closesBracket_dropClosingCommas (depth : Int) (us : List Lexeme) :
    closesBracket depth (dropClosingCommas us) = closesBracket depth us := by
  induction us generalizing depth with
  | nil => rfl
  | cons w us ih =>
    rw [dropClosingCommas]
    split
    · next comma =>
      obtain ⟨rfl, -⟩ : w = .op .comma ∧ us.head?.any Lexeme.closes = true := by simpa using comma
      rw [ih, closesBracket_cons (w := .op .comma) (by simp) (by simp)]
    · rw [closesBracket.eq_def, closesBracket.eq_def depth (w :: us)]
      split <;> simp_all

/-- The same brackets are found in lexemes that mean the same. -/
theorem closesBracket_congr {us ws : List Lexeme} (means : Means us ws) (depth : Int) :
    closesBracket depth us = closesBracket depth ws := by
  have essential : ∀ vs, closesBracket depth (essence vs) = closesBracket depth vs := fun vs => by
    rw [essence, closesBracket_dropClosingCommas, closesBracket_dropSemis]
  rw [← essential us, means.essence_eq, essential]

theorem closesBracket_concat_ident (depth : Int) (us : List Lexeme) (name : String) :
    closesBracket depth (us ++ [.ident name]) = closesBracket depth us := by
  fun_induction closesBracket depth us with
  | case1 => rfl
  | case2 depth us ih => exact ih
  | case3 depth us ih => rw [List.cons_append, closesBracket, ih]
  | case4 depth w us opening closing ih =>
    rw [List.cons_append, closesBracket_cons (fun same => opening same) fun same => closing same, ih]

/-- What is spelled has its brackets paired, so the one behind it is found. -/
theorem closesBracket_of_balanced {us ws : List Lexeme} (balanced : Balanced ws)
    (means : Means (us ++ [.op .rightBracket]) (ws ++ [.op .rightBracket])) (vs : List Lexeme) :
    closesBracket 0 (.op .leftBracket :: (us ++ .op .rightBracket :: vs)) = true := by
  have looks : closesAheadOfType 1 (ws ++ [.op .rightBracket] ++ [.ident ""]) = true := by
    rw [List.append_assoc]
    exact balanced 1 _ (Int.le_refl 1)
  have found := closesBracket_of_closesAheadOfType looks
  rw [closesBracket_concat_ident, ← closesBracket_congr means] at found
  have further := closesBracket_append found vs
  rw [List.append_assoc] at further
  exact further

/-- If the parser reads a type that begins with a name and an opening bracket, the bracket that closes
it is ahead. -/
def Brackets (ty : Parser TypeExpr) : Prop :=
  ∀ {c c' : Cursor} {x : TypeExpr}, c.IsEnded → ty c = .ok (x, c') → c.Bracketed

/-- A name closes the brackets of its arguments. -/
theorem typeNameWith_brackets {ty : Parser TypeExpr} (sound : ty.Sound (.expr .type)) :
    (typeNameWith ty).Brackets := by
  intro c c' x ended run named opens
  obtain ⟨name, c₁, hname, run⟩ := bind_eq_ok.1 run
  have first := passes_of_ident ended hname
  have next : c₁.current.lexeme = .op .leftBracket := by
    rw [Cursor.peek_one_lexeme ended, first.ahead_eq] at opens
    rw [Cursor.current_lexeme, show c₁.stop.lexeme = .eof from first.ended]
    exact opens
  have base : qualifiedFrom name c₁ = .ok (.name name, c₁) := by
    rw [qualifiedFrom, isAt_bind, next]
    rfl
  rw [bind_of_ok base, ask_bind] at run
  rw [first.ahead_eq]
  split at run
  · next args =>
    have opening := Cursor.passes_advance first.ended next (by simp)
    rw [advance_bind, bounded_bind] at run
    obtain ⟨xs, c₂, hargs, run⟩ := bind_eq_ok.1 run
    obtain ⟨us, inside, items⟩ := commaItems_sound rfl sound opening.ended hargs
    obtain ⟨t, c₃, hclose, -⟩ := bind_eq_ok.1 run
    have closing := passes_of_expect inside.ended hclose (by simp)
    rw [opening.ahead_eq, inside.ahead_eq, closing.ahead_eq]
    obtain ⟨-, rfl, -⟩ | ⟨ws, spells, means⟩ := items
    · rfl
    · exact closesBracket_of_balanced spells.balanced means _
  · next slice =>
    have closes : (c₁.peek 1).lexeme = .op .rightBracket := by
      simpa [Cursor.showsTypeArgs, next] using slice
    rw [Cursor.peek_one_lexeme first.ended] at closes
    have opening := Cursor.passes_advance first.ended next (by simp)
    rw [opening.ahead_eq] at closes ⊢
    cases behind : c₁.advance.ahead with
    | nil =>
      rw [behind] at closes
      cases closes
    | cons w vs =>
      rw [behind] at closes
      obtain rfl : w = .op .rightBracket := closes
      rfl

/-- Each form of a type closes the brackets that it opens, as it spells the type. -/
theorem typeWith_brackets {ty : Parser TypeExpr} (sound : ty.Sound (.expr .type)) :
    (typeWith ty).Brackets := by
  intro c c' x ended run named opens
  rw [typeWith, current_bind] at run
  cases here : c.current.lexeme with
  | ident name =>
    rw [here] at run
    exact typeNameWith_brackets sound ended run named opens
  | _ =>
    rw [here] at named
    cases named

theorem typeWithin_brackets (n : Nat) : (typeWithin n).Brackets := by
  cases n with
  | zero => exact fun _ run => absurd run fail_ne_ok
  | succ n => exact typeWith_brackets fun ended run => (typeWithin_sound n ended run).2

theorem type_brackets : type.Brackets := fun ended run => typeWithin_brackets _ ended run

variable {ty ty' : Parser TypeExpr} {st : Bool}

theorem constraintTerm_brackets (h : ty.Brackets) : (constraintTerm ty).Brackets := by
  intro c c' x ended run named
  rw [constraintTerm, isAt_bind] at run
  split at run
  · next tilde =>
    rw [of_decide_eq_true tilde] at named
    cases named
  · exact h ended run named

theorem entryType_brackets (h : ty.Brackets) (constraint : Bool) :
    (entryType ty constraint).Brackets := by
  intro c c' x ended run
  cases constraint with
  | false => exact h ended run
  | true =>
    obtain ⟨first, c₁, term, -⟩ := bind_eq_ok.1 run
    exact constraintTerm_brackets h ended term

/-- What is read by the look for a name with an array type: such a name, or the type of an entry. -/
theorem bracketed_of_namedArrayOr {α : Type} {named : Parser α} {f : TypeExpr → Parser α} {x : α}
    {c c' : Cursor} {constraint : Bool} (brackets : ty.Brackets) (ended : c.IsEnded)
    (run : (if c.showsNamedArray then named else entryType ty constraint >>= f) c = .ok (x, c')) :
    c.Bracketed := by
  intro ident opens
  split at run
  · next array => exact Cursor.bracketed_of_showsNamedArray ended array
  · obtain ⟨y, c₁, type, -⟩ := bind_eq_ok.1 run
    exact entryType_brackets brackets constraint ended type ident opens

/-- What follows the name of a type. -/
def typeNameBehind (ty : Parser TypeExpr) (name : String) : Parser TypeExpr := do
  let base ← qualifiedFrom name
  if ← ask Cursor.showsTypeArgs then
    let _ ← advance
    let args ← bounded (commaItems (.op .rightBracket) ty)
    let _ ← expect (.op .rightBracket)
    pure (.generic base args)
  else pure base

/-! ## Lengths and constraints -/

namespace Framed

/-- Operands with operators between them are parsed alike inside of a longer source, as the operands are. -/
theorem chain {isOperator : Lexeme → Bool} {operand operand' : Parser TypeExpr}
    (h : Framed st operand operand') :
    Framed st (Parser.chain isOperator operand) (Parser.chain isOperator operand') :=
  bind h fun _ => bind (bounded fun _ _ le => operandsAfter h le) fun _ => pure _

theorem qualifiedFrom (name : String) :
    Framed st (Parser.qualifiedFrom name) (Parser.qualifiedFrom name) := by
  refine bind (isAt _) fun dot => ?_
  cases dot with
  | true => exact advance fun _ _ _ => bind ident fun _ => pure _
  | false => exact pure _

theorem lengthOperandWith {operand operand' : Parser TypeExpr} (h : Framed st operand operand') :
    Framed st (Parser.lengthOperandWith operand) (Parser.lengthOperandWith operand') := by
  refine current fun t u same => ?_
  rw [same]
  generalize t.lexeme = w
  split
  · exact advance fun _ _ _ => pure _
  · refine advance fun _ _ _ => bind (qualifiedFrom _) fun fn => bind (isAt _) fun call => ?_
    cases call with
    | true =>
      exact advance fun _ _ _ => bind (bounded fun _ _ le => commaItems (chain h) le) fun _ =>
        expect nofun fun _ _ => pure _
    | false => exact pure _
  · exact advance fun _ _ _ => bind (chain h) fun _ => expect nofun fun _ _ => pure _
  · split
    · exact advance fun _ _ _ => bind h fun _ => pure _
    · exact fail _ _

/-- By induction on the levels; a longer source has as many of them or more. -/
theorem lengthOperandWithin {n m : Nat} (le : n ≤ m) :
    Framed st (Parser.lengthOperandWithin n) (Parser.lengthOperandWithin m) := by
  induction le using rounds_induction with
  | zero => exact fail _ _
  | succ n m _ ih =>
    exact lengthOperandWith ih

theorem length : Framed st Parser.length Parser.length :=
  chain (bounded fun _ _ le => lengthOperandWithin le)

theorem constraintTerm (h : Framed st ty ty') :
    Framed st (Parser.constraintTerm ty) (Parser.constraintTerm ty') := by
  refine bind (isAt _) fun tilde => ?_
  cases tilde with
  | true => exact advance fun _ _ _ => bind h fun _ => pure _
  | false => exact h

theorem constraintWith (h : Framed st ty ty') :
    Framed st (Parser.constraintWith ty) (Parser.constraintWith ty') :=
  chain (constraintTerm h)

/-! ## Lists of fields -/

theorem entryType (h : Framed st ty ty') (constraint : Bool) :
    Framed st (Parser.entryType ty constraint) (Parser.entryType ty' constraint) := by
  cases constraint with
  | true => exact constraintWith h
  | false => exact h

theorem orVariadic {other other' : Parser TypeExpr} (h : Framed st ty ty')
    (k : Framed st other other') :
    Framed st (Parser.orVariadic ty other) (Parser.orVariadic ty' other') := by
  refine bind (isAt _) fun dots => ?_
  cases dots with
  | true => exact advance fun _ _ _ => bind h fun _ => pure _
  | false => exact k

/-- A look for a closing bracket, before something that is read only if the bracket is there. -/
theorem askBracketed {β : Type} {look : Cursor → Bool} {f g : Bool → Parser β}
    (same : ∀ (s : Surroundings) (c : Cursor), s.Inside c → c.Bracketed → look (c.within s) = look c)
    (found : ∀ {c c' : Cursor} {x : β}, c.IsEnded → f (look c) c = .ok (x, c') → c.Bracketed)
    (h : ∀ b, Framed st (f b) (g b)) :
    Framed st (Parser.ask look >>= f) (Parser.ask look >>= g) where
  forward {c c' x} run := (h (look c)).forward run
  frame {s c c' x} run clear inside started := by
    rw [ask_bind] at run ⊢
    have here := inside.back ((h (look c)).forward run)
    rw [same s c here (found clear.ended run)]
    exact (h (look c)).frame run clear inside started

/-- An entry is parsed alike: how far a look for its name goes is told by brackets that the entry closes. -/
theorem nameAndType (h : Framed true ty ty') (brackets : ty.Brackets) (close : Lexeme)
    (constraint : Bool) :
    Framed true (Parser.nameAndType ty close constraint) (Parser.nameAndType ty' close constraint) := by
  refine bind (isAt _) fun dots => ?_
  cases dots with
  | true => exact bind (orVariadic h h) fun _ => pure _
  | false =>
    refine askBracketed (fun s c => Cursor.showsNamedArray_within)
      (bracketed_of_namedArrayOr brackets) fun array => ?_
    cases array with
    | true => exact bind ident fun _ => bind h fun _ => pure _
    | false =>
      refine bind (entryType h constraint) fun x => ?_
      split
      · refine current fun t u same => ?_
        rw [same]
        split
        · exact pure _
        · exact bind (orVariadic h (entryType h constraint)) fun _ => pure _
      · exact pure _

/-- Entries are parsed alike up to their closing bracket, with as many rounds or more. -/
theorem entriesUntil {close : Lexeme} {entry entry' : Parser (Option String × TypeExpr)}
    (h : Framed true entry entry') {n m : Nat} (le : n ≤ m) :
    Framed true (Parser.entriesUntil close entry n) (Parser.entriesUntil close entry' m) := by
  induction le using rounds_induction with
  | zero => exact fail _ _
  | succ n m _ ih =>
    refine bind (isAt close) fun closed => ?_
    cases closed with
    | true => exact pure _
    | false =>
      refine bind h fun e => bind (isAt _) fun comma => ?_
      cases comma with
      | true =>
        exact advance fun _ _ _ => bind commentBehind fun _ => bind passSemis fun _ =>
          bind ih fun _ => pure _
      | false => exact bind commentBehind fun _ => bind passSemis fun _ => pure _

/-- A list is parsed alike, as it ends at a bracket of its own. -/
theorem fieldListWith (h : Framed true ty ty') (brackets : ty.Brackets) {opening close : Lexeme}
    (begins : opening ≠ .eof) (ends : close ≠ .eof) (constraint : Bool) :
    Framed st (Parser.fieldListWith ty opening close constraint)
      (Parser.fieldListWith ty' opening close constraint) := by
  refine expect begins fun _ _ => bind passSemis fun _ => ?_
  refine bind (bounded fun _ _ le => entriesUntil (nameAndType h brackets close constraint) le) fun es => ?_
  refine expect ends fun _ _ => ?_
  cases fieldsOf es with
  | ok fields => exact pure _
  | error cause => exact fail _ _

theorem paramsWith (h : Framed true ty ty') (brackets : ty.Brackets) :
    Framed st (Parser.paramsWith ty) (Parser.paramsWith ty') := by
  refine fieldListWith h brackets ?_ ?_ false <;> exact nofun

/-- Results are parsed alike: what is behind them is inside of the source as well. -/
theorem resultsWith (h : Framed true ty ty') (brackets : ty.Brackets) :
    Framed true (Parser.resultsWith ty) (Parser.resultsWith ty') := by
  refine bind (isAt _) fun listed => ?_
  cases listed with
  | true => exact paramsWith h brackets
  | false =>
    refine current fun t u same => ?_
    rw [same]
    split
    · exact bind h fun _ => pure _
    · exact pure _

theorem signatureWith (h : Framed true ty ty') (brackets : ty.Brackets) :
    Framed true (Parser.signatureWith ty) (Parser.signatureWith ty') :=
  bind (paramsWith h brackets) fun _ => bind (resultsWith h brackets) fun _ => pure _

/-! ## Bodies -/

theorem fieldTag : Framed st Parser.fieldTag Parser.fieldTag := by
  refine current fun t u same => ?_
  rw [same]
  split
  · refine advance fun _ _ _ => ?_
    exact pure _
  · exact pure _

/-- A field is parsed alike, with the remarks above and behind it. -/
theorem structFieldWith (h : Framed true ty ty') (brackets : ty.Brackets) :
    Framed true (Parser.structFieldWith ty) (Parser.structFieldWith ty') := by
  refine bind docHere fun doc => ?_
  unfold Parser.fieldNames
  simp only [bind_assoc]
  refine askBracketed (fun s c => Cursor.showsFieldName_within) ?_ fun named => ?_
  · intro c c' x ended run named opens
    cases shows : c.showsFieldName with
    | true => exact Cursor.bracketed_of_showsFieldName ended shows opens
    | false =>
      rw [shows] at run
      obtain ⟨names, c₁, none, run⟩ := bind_eq_ok.1 run
      obtain ⟨-, rfl⟩ := pure_eq_ok.1 none
      obtain ⟨y, c₂, type, -⟩ := bind_eq_ok.1 run
      exact brackets ended type named opens
  · refine bind ?_ fun names => bind h fun type => bind fieldTag fun tag => bind commentBehind fun _ =>
      pure _
    cases named with
    | true => exact bind ident fun _ => bind (bounded fun _ _ le => moreNames le) fun _ => pure _
    | false => exact pure _

/-- A member is parsed alike, with the remarks above and behind it. -/
theorem interfaceMemberWith (h : Framed true ty ty') (brackets : ty.Brackets) :
    Framed true (Parser.interfaceMemberWith ty) (Parser.interfaceMemberWith ty') := by
  refine bind docHere fun doc => bind (ask fun s c => Cursor.showsMethod_within) fun method => ?_
  cases method with
  | true => exact bind ident fun _ => bind (signatureWith h brackets) fun _ => bind commentBehind fun _ => pure _
  | false => exact bind (constraintWith h) fun _ => bind commentBehind fun _ => pure _

/-- A body is parsed alike, member by member. -/
theorem bodyOf {member member' : Parser Field} (h : Framed true member member') :
    Framed st (Parser.bodyOf member) (Parser.bodyOf member') := by
  refine expect nofun fun _ _ => ?_
  exact bind (bounded fun _ _ le => itemsUntil h.statement le) fun _ => expect nofun fun _ _ => pure _

theorem structTypeWith (h : Framed true ty ty') (brackets : ty.Brackets) :
    Framed st (Parser.structTypeWith ty) (Parser.structTypeWith ty') :=
  expect nofun fun _ _ => bind (bodyOf (structFieldWith h brackets)) fun _ => pure _

theorem interfaceTypeWith (h : Framed true ty ty') (brackets : ty.Brackets) :
    Framed st (Parser.interfaceTypeWith ty) (Parser.interfaceTypeWith ty') :=
  expect nofun fun _ _ => bind (bodyOf (interfaceMemberWith h brackets)) fun _ => pure _

/-! ## Types -/

theorem typeNameBehind (h : Framed st ty ty') (name : String) :
    Framed st (Parser.typeNameBehind ty name) (Parser.typeNameBehind ty' name) := by
  refine bind (qualifiedFrom name) fun base => ?_
  refine bind (ask fun s c => Cursor.showsTypeArgs_within) fun args => ?_
  cases args with
  | true =>
    exact advance fun _ _ _ => bind (bounded fun _ _ le => commaItems h le) fun _ =>
      expect nofun fun _ _ => pure _
  | false => exact pure _

theorem typeNameWith (h : Framed st ty ty') :
    Framed st (Parser.typeNameWith ty) (Parser.typeNameWith ty') :=
  bind ident (typeNameBehind h)

theorem arrayWith (h : Framed true ty ty') :
    Framed true (Parser.arrayWith ty) (Parser.arrayWith ty') := by
  refine bind (isAt _) fun slice => ?_
  cases slice with
  | true => exact advance fun _ _ _ => bind h fun _ => pure _
  | false =>
    refine bind (isAt _) fun counted => ?_
    cases counted with
    | true => exact advance fun _ _ _ => expect nofun fun _ _ => bind h fun _ => pure _
    | false => exact bind length fun _ => expect nofun fun _ _ => bind h fun _ => pure _

theorem mapWith (h : Framed true ty ty') : Framed st (Parser.mapWith ty) (Parser.mapWith ty') :=
  expect nofun fun _ _ => bind h fun _ => expect nofun fun _ _ => bind h fun _ => pure _

theorem channelWith (h : Framed st ty ty') :
    Framed st (Parser.channelWith ty) (Parser.channelWith ty') := by
  refine bind (isAt _) fun send => ?_
  cases send with
  | true => exact advance fun _ _ _ => bind h fun _ => pure _
  | false => exact bind h fun _ => pure _

/-- Each form of a type is parsed alike, as the types inside of it are. -/
theorem typeWith (h : Framed true ty ty') (brackets : ty.Brackets) :
    Framed true (Parser.typeWith ty) (Parser.typeWith ty') := by
  refine current fun t u same => ?_
  rw [same]
  split
  · exact typeNameWith h
  · exact advance fun _ _ _ => bind h fun _ => pure _
  · exact advance fun _ _ _ => arrayWith h
  · exact advance fun _ _ _ => mapWith h
  · exact advance fun _ _ _ => channelWith h
  · exact advance fun _ _ _ => expect nofun fun _ _ => bind h fun _ => pure _
  · exact advance fun _ _ _ => signatureWith h brackets
  · exact structTypeWith h brackets
  · exact interfaceTypeWith h brackets
  · exact advance fun _ _ _ => bind h fun _ => expect nofun fun _ _ => pure _
  · exact fail _ _

/-- Types nested so many levels deep are read the same with more levels. -/
theorem typeWithin {n m : Nat} (le : n ≤ m) :
    Framed true (Parser.typeWithin n) (Parser.typeWithin m) := by
  induction le using rounds_induction with
  | zero => exact fail _ _
  | succ n m _ ih =>
    exact typeWith ih (typeWithin_brackets n)

/-- A type is parsed inside of a longer source as it is on its own. -/
theorem type : Framed true Parser.type Parser.type := bounded fun _ _ le => typeWithin le

end Framed

end Typings.Parser
