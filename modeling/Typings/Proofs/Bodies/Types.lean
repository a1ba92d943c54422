import Typings.Proofs.Bodies.Kept
import Typings.Proofs.Joined.Endings

/-!
# Types before another sequel

The productions for types are kept, whatever stands in the place of the last semicolon
(`Parser.Kept.type`). What is read between brackets is kept as it stands, since the closing bracket is
still before that semicolon. A single result stands directly before it: there a brace ends the type as
the semicolon does.
-/

namespace Typings.Parser

variable {α : Type} {ty : Parser TypeExpr}

/-! ## Names that are passed -/

/-- The parser passes an identifier at which it stands. -/
def PassesIdent (p : Parser α) : Prop :=
  ∀ {c c' : Cursor} {x : α}, p c = .ok (x, c') → c.current.lexeme.isIdent = true →
    c.advance.Reaches c'

/-- The first step passes a name, and no step goes back. -/
theorem PassesIdent.bind {β : Type} {p : Parser α} {f : α → Parser β} (h : p.PassesIdent)
    (forward : ∀ x, Forward (f x)) : (p >>= f).PassesIdent := by
  intro c c' y run named
  obtain ⟨x, c₁, first, rest⟩ := bind_eq_ok.1 run
  exact (h first named).trans (forward x rest)

theorem passesIdent_ident : ident.PassesIdent := by
  intro c c' name run named
  obtain ⟨t, c₁, first, last⟩ := bind_eq_ok.1 run
  obtain ⟨-, rfl⟩ := pure_eq_ok.1 last
  change (ask (fun c => c.current.lexeme.isIdent) >>= _) c = _ at first
  rw [ask_bind, if_pos named] at first
  cases first
  exact .refl _

/-- A type that begins with a name passes it. -/
theorem typeWith_passesIdent (h : Framed true ty ty) : (typeWith ty).PassesIdent := by
  intro c c' x run named
  rw [typeWith, current_bind] at run
  cases here : c.current.lexeme with
  | ident name =>
    rw [here] at run
    exact (passesIdent_ident.bind fun name => (Framed.typeNameBehind h name).forward) run named
  | _ =>
    rw [here] at named
    cases named

theorem typeWithin_passesIdent (n : Nat) : (typeWithin n).PassesIdent := by
  cases n with
  | zero => exact fun run => absurd run fail_ne_ok
  | succ n => exact typeWith_passesIdent (Framed.typeWithin (Nat.le_refl n))

/-- What follows the names of a struct field. -/
def fieldBehind (ty : Parser TypeExpr) (doc : Option CommentGroup) (names : List String) :
    Parser Field := do
  let type ← ty
  let tag ← fieldTag
  let comment ← commentBehind
  pure { names := names, type := type, doc := doc, comment := comment, tag := tag }

/-- A field whose names are read has its type passed. -/
theorem fieldBehind_passesIdent (passes : ty.PassesIdent) (doc : Option CommentGroup)
    (names : List String) : (fieldBehind ty doc names).PassesIdent :=
  passes.bind fun _ => (Framed.bind .fieldTag fun _ => .bind .commentBehind fun _ => .pure _).forward

namespace Kept

variable {n : Nat} {ty' : Parser TypeExpr}

/-! ## Lengths and constraints -/

/-- What may follow a signature is no operator, so that operands end before it as they do elsewhere. -/
theorem chain {isOperator : Lexeme → Bool}
    (others : ∀ w : Lexeme, w.followsSignature = true → isOperator w = false)
    {operand operand' : Parser TypeExpr} (h : Kept n operand operand') :
    Kept n (Parser.chain isOperator operand) (Parser.chain isOperator operand') :=
  bind h fun _ => bind (bounded fun _ _ le => operandsAfter others h le) fun _ => pure _

theorem qualifiedFrom (name : String) :
    Kept n (Parser.qualifiedFrom name) (Parser.qualifiedFrom name) := by
  apply isAt rfl
  intro dot
  cases dot with
  | true => exact advance fun _ => ident fun _ => pure _
  | false => exact pure _

/-- What may follow a signature is no operator of a length. -/
theorem isLengthOperator_of_followsSignature (w : Lexeme) (follows : w.followsSignature = true) :
    isLengthOperator w = false := by
  obtain rfl | rfl := Lexeme.eq_of_followsSignature follows <;> rfl

theorem lengthOperandWith {operand operand' : Parser TypeExpr} (h : Kept n operand operand') :
    Kept n (Parser.lengthOperandWith operand) (Parser.lengthOperandWith operand') := by
  have inner := chain isLengthOperator_of_followsSignature h
  apply current
  · intro t
    generalize t.lexeme = w
    split
    · exact advance fun _ => pure _
    · refine advance fun _ => bind (qualifiedFrom _) fun fn => isAt rfl fun call => ?_
      cases call with
      | true =>
        exact advance fun _ => bind (bounded fun _ _ le => commaItems rfl inner le) fun _ =>
          expect _ fun _ => pure _
      | false => exact pure _
    · exact advance fun _ => bind inner fun _ => expect _ fun _ => pure _
    · split
      · exact advance fun _ => bind h fun _ => pure _
      · exact fail _ _
  · intro t u semi _
    rw [semi]
    exact fail _ _

theorem lengthOperandWithin {i j : Nat} (le : i ≤ j) :
    Kept n (Parser.lengthOperandWithin i) (Parser.lengthOperandWithin j) := by
  induction le using rounds_induction with
  | zero => exact fail _ _
  | succ i j _ ih =>
    exact lengthOperandWith ih

theorem length : Kept n Parser.length Parser.length :=
  chain isLengthOperator_of_followsSignature (bounded fun _ _ le => lengthOperandWithin le)

theorem constraintTerm (h : Kept n ty ty') :
    Kept n (Parser.constraintTerm ty) (Parser.constraintTerm ty') := by
  apply isAt rfl
  intro tilde
  cases tilde with
  | true => exact advance fun _ => bind h fun _ => pure _
  | false => exact h

theorem constraintWith (h : Kept n ty ty') :
    Kept n (Parser.constraintWith ty) (Parser.constraintWith ty') := by
  apply chain _ (constraintTerm h)
  rintro w follows
  apply decide_eq_false
  rintro rfl
  cases follows

/-! ## Lists of fields -/

theorem entryType (h : Kept n ty ty') (constraint : Bool) :
    Kept n (Parser.entryType ty constraint) (Parser.entryType ty' constraint) := by
  cases constraint with
  | true => exact constraintWith h
  | false => exact h

theorem orVariadic {other other' : Parser TypeExpr} (h : Kept n ty ty') (k : Kept n other other') :
    Kept n (Parser.orVariadic ty other) (Parser.orVariadic ty' other') := by
  apply isAt rfl
  intro dots
  cases dots with
  | true => exact advance fun _ => bind h fun _ => pure _
  | false => exact k

theorem nameAndType (h : Kept (n + 1) ty ty') (brackets : ty.Brackets) (close : Lexeme)
    (constraint : Bool) :
    Kept (n + 1) (Parser.nameAndType ty close constraint) (Parser.nameAndType ty' close constraint) := by
  apply isAt rfl
  intro dots
  cases dots with
  | true => exact bind (orVariadic h h) fun _ => pure _
  | false =>
    apply askIf Cursor.Bracketed
    · intro s c before
      exact Cursor.showsNamedArray_followedBy (before.mono (Nat.zero_le _))
    · exact fun ended run _ => bracketed_of_namedArrayOr brackets ended run
    · intro array
      cases array with
      | true => exact ident fun _ => bind h fun _ => pure _
      | false =>
        apply bind (entryType h constraint)
        intro x
        split
        · apply currentInside
          intro next
          split
          · exact pure _
          · exact bind (orVariadic h (entryType h constraint)) fun _ => pure _
        · exact pure _

/-- Entries are kept whatever follows their closing bracket, with as many rounds or more. -/
theorem entriesUntil {close : Lexeme} {entry entry' : Parser (Option String × TypeExpr)}
    (h : Kept (n + 1) entry entry') {i j : Nat} (le : i ≤ j) :
    Kept (n + 1) (Parser.entriesUntil close entry i) (Parser.entriesUntil close entry' j) := by
  induction le using rounds_induction with
  | zero => exact fail _ _
  | succ i j _ ih =>
    apply isAtInside
    intro closed
    cases closed with
    | true => exact pure _
    | false =>
      apply bind h
      intro e
      apply isAtInside
      intro comma
      cases comma with
      | true =>
        exact advance fun _ => commentBehind fun _ => bind passSemis fun _ =>
          bind ih fun _ => pure _
      | false => exact commentBehind fun _ => bind passSemis fun _ => pure _

/-- A list in brackets is kept, since its brackets are balanced. -/
theorem fieldListWith (h : Kept (n + 1) ty ty') (brackets : ty.Brackets) (opening close : Lexeme)
    (constraint : Bool) :
    Kept n (Parser.fieldListWith ty opening close constraint)
      (Parser.fieldListWith ty' opening close constraint) := by
  refine expect _ fun _ => bind passSemis fun _ => ?_
  have entry := nameAndType h brackets close constraint
  refine beforeExpect close (bounded fun _ _ le => entriesUntil entry le) fun es _ => ?_
  cases fieldsOf es with
  | ok fields => exact pure _
  | error cause => exact fail _ _

theorem paramsWith (h : Kept (n + 1) ty ty') (brackets : ty.Brackets) :
    Kept n (Parser.paramsWith ty) (Parser.paramsWith ty') :=
  fieldListWith h brackets _ _ false

/-- What may follow a signature begins no type, so that no result is read from it. -/
theorem startsType_of_followsSignature {w : Lexeme} (follows : w.followsSignature = true) :
    w.startsType = false := by
  obtain rfl | rfl := Lexeme.eq_of_followsSignature follows <;> rfl

/-- Results are kept: they end at their closing bracket, or where no type goes on. -/
theorem resultsWith (h : Kept n ty ty') (brackets : ty.Brackets) :
    Kept n (Parser.resultsWith ty) (Parser.resultsWith ty') := by
  apply isAt rfl
  intro listed
  cases listed with
  | true => exact paramsWith (h.mono (Nat.le_succ n)) brackets
  | false =>
    apply current
    · intro t
      split
      · exact bind h fun _ => pure _
      · exact pure _
    · intro t u semi follows
      rw [startsType_of_followsSignature follows, startsType_of_followsSignature (by rw [semi]; rfl)]
      exact pure _

theorem signatureWith (h : Kept n ty ty') (brackets : ty.Brackets) :
    Kept n (Parser.signatureWith ty) (Parser.signatureWith ty') :=
  bind (paramsWith (h.mono (Nat.le_succ n)) brackets) fun _ =>
    bind (resultsWith h brackets) fun _ => pure _

/-! ## Bodies -/

theorem fieldTag : Kept (n + 1) Parser.fieldTag Parser.fieldTag := by
  apply currentInside
  intro t
  split
  · exact advance fun _ => pure _
  · exact pure _

theorem fieldBehind (h : Kept (n + 1) ty ty') (doc : Option CommentGroup) (names : List String) :
    Kept (n + 1) (Parser.fieldBehind ty doc names) (Parser.fieldBehind ty' doc names) :=
  bind h fun _ => bind fieldTag fun _ => commentBehind fun _ => pure _

/-- A field of a struct is kept; what is looked at behind its names is inside of the body. -/
theorem structFieldWith (h : Kept (n + 1) ty ty') (brackets : ty.Brackets) (passes : ty.PassesIdent) :
    Kept (n + 1) (Parser.structFieldWith ty) (Parser.structFieldWith ty') := by
  change Kept (n + 1)
    (do let doc ← Parser.docHere; let names ← fieldNames; Parser.fieldBehind ty doc names)
    (do let doc ← Parser.docHere; let names ← fieldNames; Parser.fieldBehind ty' doc names)
  apply docHere
  intro doc
  unfold fieldNames
  simp only [bind_assoc]
  have names : Kept (n + 1) (Parser.bounded Parser.moreNames) (Parser.bounded Parser.moreNames) :=
    bounded fun _ _ le => moreNames le
  apply askIf fun c => c.Bracketed ∧ (c.current.lexeme.isIdent = true → c.Before 2)
  · intro s c before ⟨found, two⟩
    exact Cursor.showsFieldName_followedBy (before.mono (Nat.zero_le _)) found two
  · intro c c' x ended run before
    have two : ∀ {p : Parser Field}, p.PassesIdent → p c = .ok (x, c') →
        c.current.lexeme.isIdent = true → c.Before 2 := fun passes run named =>
      (before.back (passes run named)).of_advance.mono (Nat.succ_le_succ (Nat.le_add_left 1 n))
    cases shows : c.showsFieldName with
    | true =>
      refine ⟨fun _ opens => Cursor.bracketed_of_showsFieldName ended shows opens, two ?_ run⟩
      rw [shows, if_pos rfl]
      refine PassesIdent.bind ?_ fun _ => (fieldBehind h doc _).forward
      exact passesIdent_ident.bind fun _ => (bind names fun _ => pure _).forward
    | false =>
      rw [shows] at run
      obtain ⟨_, c₁, none, run⟩ := bind_eq_ok.1 run
      obtain ⟨-, rfl⟩ := pure_eq_ok.1 none
      obtain ⟨y, c₂, type, -⟩ := bind_eq_ok.1 run
      exact ⟨brackets ended type, two (fieldBehind_passesIdent passes doc _) run⟩
  · intro named
    apply bind ?_ (fieldBehind h doc)
    cases named with
    | true => exact ident fun _ => bind names fun _ => pure _
    | false => exact pure _

/-- A member of an interface is kept inside of the body. -/
theorem interfaceMemberWith (h : Kept (n + 1) ty ty') (brackets : ty.Brackets) :
    Kept (n + 1) (Parser.interfaceMemberWith ty) (Parser.interfaceMemberWith ty') := by
  apply docHere
  intro doc
  apply ask fun before => Cursor.showsMethod_followedBy (before.mono (Nat.zero_le _))
  intro method
  cases method with
  | true => exact ident fun _ => bind (signatureWith h brackets) fun _ => commentBehind fun _ => pure _
  | false => exact bind (constraintWith h) fun _ => commentBehind fun _ => pure _

/-- A body is kept, since its braces are balanced. -/
theorem bodyOf {member member' : Parser Field} (h : Kept (n + 1) member member') :
    Kept n (Parser.bodyOf member) (Parser.bodyOf member') := by
  refine expect _ fun _ => ?_
  exact beforeExpect _ (bounded fun _ _ le => itemsUntil h.statement le) fun _ _ => pure _

theorem structTypeWith (h : Kept (n + 1) ty ty') (brackets : ty.Brackets) (passes : ty.PassesIdent) :
    Kept n (Parser.structTypeWith ty) (Parser.structTypeWith ty') :=
  expect _ fun _ => bind (bodyOf (structFieldWith h brackets passes)) fun _ => pure _

theorem interfaceTypeWith (h : Kept (n + 1) ty ty') (brackets : ty.Brackets) :
    Kept n (Parser.interfaceTypeWith ty) (Parser.interfaceTypeWith ty') :=
  expect _ fun _ => bind (bodyOf (interfaceMemberWith h brackets)) fun _ => pure _

/-! ## Types -/

theorem typeNameBehind (h : Kept n ty ty') (name : String) :
    Kept n (Parser.typeNameBehind ty name) (Parser.typeNameBehind ty' name) := by
  apply bind (qualifiedFrom name)
  intro base
  apply ask fun before => Cursor.showsTypeArgs_followedBy (before.mono (Nat.zero_le n))
  intro args
  cases args with
  | true =>
    exact advance fun _ => bind (bounded fun _ _ le => commaItems rfl h le) fun _ =>
      expect _ fun _ => pure _
  | false => exact pure _

theorem typeNameWith (h : Kept n ty ty') :
    Kept n (Parser.typeNameWith ty) (Parser.typeNameWith ty') :=
  ident fun name => typeNameBehind h name

theorem arrayWith (h : Kept n ty ty') : Kept n (Parser.arrayWith ty) (Parser.arrayWith ty') := by
  apply isAt rfl
  intro slice
  cases slice with
  | true => exact advance fun _ => bind h fun _ => pure _
  | false =>
    apply isAt rfl
    intro counted
    cases counted with
    | true => exact advance fun _ => expect _ fun _ => bind h fun _ => pure _
    | false => exact bind length fun _ => expect _ fun _ => bind h fun _ => pure _

theorem mapWith (h : Kept n ty ty') : Kept n (Parser.mapWith ty) (Parser.mapWith ty') :=
  expect _ fun _ => bind h fun _ => expect _ fun _ => bind h fun _ => pure _

theorem channelWith (h : Kept n ty ty') : Kept n (Parser.channelWith ty) (Parser.channelWith ty') := by
  apply isAt rfl
  intro send
  cases send with
  | true => exact advance fun _ => bind h fun _ => pure _
  | false => exact bind h fun _ => pure _

/-- Each form of a type is kept, as the types inside of it are. -/
theorem typeWith (h : Kept n ty ty') (brackets : ty.Brackets) (passes : ty.PassesIdent) :
    Kept n (Parser.typeWith ty) (Parser.typeWith ty') := by
  have h' := h.mono (Nat.le_succ n)
  apply current
  · intro t
    split
    · exact typeNameWith h
    · exact advance fun _ => bind h fun _ => pure _
    · exact advance fun _ => arrayWith h
    · exact advance fun _ => mapWith h
    · exact advance fun _ => channelWith h
    · exact advance fun _ => expect _ fun _ => bind h fun _ => pure _
    · exact advance fun _ => signatureWith h brackets
    · exact structTypeWith h' brackets passes
    · exact interfaceTypeWith h' brackets
    · exact advance fun _ => bind h fun _ => expect _ fun _ => pure _
    · exact fail _ _
  · intro t u semi _
    rw [semi]
    exact fail _ _

/-- Types nested so many levels deep are kept, and read the same with more levels. -/
theorem typeWithin {i j : Nat} (le : i ≤ j) :
    Kept n (Parser.typeWithin i) (Parser.typeWithin j) := by
  induction le using rounds_induction with
  | zero => exact fail _ _
  | succ i j _ ih =>
    exact typeWith ih (typeWithin_brackets i) (typeWithin_passesIdent i)

/-- A type is kept, with the levels that its own tokens need. -/
theorem type : Kept n Parser.type Parser.type := bounded fun _ _ le => typeWithin le

end Kept

end Typings.Parser
