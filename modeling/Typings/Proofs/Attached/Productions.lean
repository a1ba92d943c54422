import Typings.Proofs.Attached.Uses
import Typings.Proofs.Joined.Decls

/-!
# Which comments the productions use

Every production attaches no other remarks than those it makes of the comments that it uses
(`Parser.Attaches`), down from types to whole files. What starts something passes a token of its own
before anything else can start: types, signatures and specifications are strict.
-/

namespace Typings.Parser

variable {α β : Type} {strict : Bool} {before : List Remark}

/-! ## Lengths -/

namespace Quiet

variable {p : Parser α} {post : α → Prop}

/-- The type has no remarks. -/
def Bare (x : TypeExpr) : Prop := x.remarks = []

theorem commaItems {close : Lexeme} {item : Parser α} (h : item.Quiet post) (n : Nat) :
    (Parser.commaItems close item n).Quiet fun xs => ∀ x ∈ xs, post x := by
  induction n with
  | zero => exact fail _
  | succ n ih =>
    refine ifAsk (pure (List.forall_mem_nil _)) (h.bind fun x said => ifAsk ?_ ?_)
    · exact advance.bind fun _ _ => ih.bind fun xs all => pure (List.forall_mem_cons.2 ⟨said, all⟩)
    · exact pure (List.forall_mem_singleton.2 said)

/-- Operands of a length are read without comments. -/
theorem operandsAfter {isOperator : Lexeme → Bool} {operand : Parser α} (h : operand.Quiet post)
    (n : Nat) : (Parser.operandsAfter isOperator operand n).Quiet fun xs => ∀ x ∈ xs, post x.2 := by
  induction n with
  | zero => exact fail _
  | succ n ih =>
    refine (ask _).bind fun t _ => ?_
    split
    · refine advance.bind fun _ _ => h.bind fun x said => ih.bind fun xs all => pure ?_
      exact List.forall_mem_cons.2 ⟨said, all⟩
    · exact pure (List.forall_mem_nil _)

theorem bare_foldl {xs : List (String × TypeExpr)} {x : TypeExpr} (first : Bare x)
    (all : ∀ x ∈ xs, Bare x.2) : Bare (xs.foldl (fun x (op, y) => .binary x op y) x) := by
  induction xs generalizing x with
  | nil => exact first
  | cons y ys ih =>
    obtain ⟨next, rest⟩ := List.forall_mem_cons.1 all
    exact ih (List.append_eq_nil_iff.2 ⟨first, next⟩) rest

/-- A length has no comments in it. -/
theorem chain {isOperator : Lexeme → Bool} {operand : Parser TypeExpr} (h : operand.Quiet Bare) :
    (Parser.chain isOperator operand).Quiet Bare :=
  h.bind fun _ first => (bounded (operandsAfter h)).bind fun _ all => pure (bare_foldl first all)

theorem qualifiedFrom (name : String) : (Parser.qualifiedFrom name).Quiet Bare :=
  ifAsk (advance.bind fun _ _ => ident.bind fun _ _ => pure rfl) (pure rfl)

theorem lengthOperandWith {operand : Parser TypeExpr} (h : operand.Quiet Bare) :
    (Parser.lengthOperandWith operand).Quiet Bare := by
  refine (ask _).bind fun t _ => ?_
  split
  · exact advance.bind fun _ _ => pure rfl
  · refine advance.bind fun _ _ => (qualifiedFrom _).bind fun fn bare => ifAsk ?_ (pure bare)
    refine advance.bind fun _ _ => (bounded (commaItems (chain h))).bind fun args all => ?_
    refine (expect _).bind fun _ _ => pure (List.append_eq_nil_iff.2 ⟨bare, ?_⟩)
    rw [remarksOfTypes_eq_flatMap]
    exact List.flatMap_eq_nil_iff.2 all
  · exact advance.bind fun _ _ => (chain h).bind fun _ bare => (expect _).bind fun _ _ => pure bare
  · split
    · exact advance.bind fun _ _ => h.bind fun _ bare => pure bare
    · exact fail _

/-- By induction on the levels: an operand of a length has no comments in it. -/
theorem lengthOperandWithin (n : Nat) : (Parser.lengthOperandWithin n).Quiet Bare := by
  induction n with
  | zero => exact fail _
  | succ n ih => exact lengthOperandWith ih

theorem length : Parser.length.Quiet Bare := chain (bounded lengthOperandWithin)

/-! ## Names and tags -/

theorem moreNames (n : Nat) : (Parser.moreNames n).Quiet fun _ => True := by
  induction n with
  | zero => exact fail _
  | succ n ih =>
    refine ifAsk (advance.bind fun _ _ => ident.bind fun _ _ => ?_) (pure trivial)
    exact ih.bind fun _ _ => pure trivial

theorem fieldNames : Parser.fieldNames.Quiet fun _ => True := by
  refine ifAsk (ident.bind fun _ _ => ?_) (pure trivial)
  exact (bounded moreNames).bind fun _ _ => pure trivial

theorem fieldTag : Parser.fieldTag.Quiet fun _ => True := by
  refine (ask _).bind fun t _ => ?_
  split
  · exact advance.bind fun _ _ => pure trivial
  · exact pure trivial

end Quiet

/-! ## Types -/

namespace Attaches

variable {ty : Parser TypeExpr}

theorem typeNameWith (h : Attaches true [] ty TypeExpr.remarks) :
    Attaches strict [] (Parser.typeNameWith ty) TypeExpr.remarks := by
  refine ident fun name => after (.qualifiedFrom name) fun base bare => ?_
  refine ifAsk (advance fun _ => (bounded (commaItems h.any)).bind fun args => ?_) (pure_of_eq bare)
  refine any (expect (by decide) fun _ => pure_of_eq ?_)
  rw [TypeExpr.remarks, bare, remarksOfTypes_eq_flatMap]

theorem arrayWith (h : Attaches true [] ty TypeExpr.remarks) :
    Attaches strict [] (Parser.arrayWith ty) TypeExpr.remarks := by
  refine ifAsk ?_ (ifAsk ?_ ?_)
  · exact advance fun _ => h.any.bind fun elt => pure (.refl _)
  · exact advance fun _ => expect (by decide) fun _ => h.any.bind fun elt => pure (.refl _)
  · refine after .length fun size bare => expect (by decide) fun _ => h.any.bind fun elt => ?_
    refine pure_of_eq ?_
    rw [TypeExpr.remarks, bare]

theorem mapWith (h : Attaches true [] ty TypeExpr.remarks) :
    Attaches strict [] (Parser.mapWith ty) TypeExpr.remarks := by
  refine expect (by decide) fun _ => h.any.bind fun key => expect (by decide) fun _ => ?_
  exact h.any.bind fun value => pure (.refl _)

theorem channelWith (h : Attaches true [] ty TypeExpr.remarks) :
    Attaches strict [] (Parser.channelWith ty) TypeExpr.remarks :=
  ifAsk (advance fun _ => h.any.bind fun _ => pure (.refl _)) (h.any.bind fun _ => pure (.refl _))

/-! ## Constraints -/

theorem operandsAfter {isOperator : Lexeme → Bool} {operand : Parser TypeExpr}
    (h : Attaches false [] operand TypeExpr.remarks) (n : Nat) :
    Attaches false [] (Parser.operandsAfter isOperator operand n) fun xs =>
      xs.flatMap fun x => x.2.remarks := by
  induction n with
  | zero => exact fail _
  | succ n ih =>
    refine ask fun t => ?_
    split
    · exact advance fun _ => h.bind fun x => ih.bind fun xs => pure (.refl _)
    · exact pure (.refl _)

/-- The remarks of operands put together are those of the operands. -/
theorem remarks_foldl (xs : List (String × TypeExpr)) (x : TypeExpr) :
    (xs.foldl (fun x (op, y) => .binary x op y) x).remarks =
      x.remarks ++ xs.flatMap fun x => x.2.remarks := by
  induction xs generalizing x with
  | nil => exact (List.append_nil _).symm
  | cons y ys ih => rw [List.foldl_cons, ih, TypeExpr.remarks, List.append_assoc, List.flatMap_cons]

theorem constraintTerm (h : Attaches true [] ty TypeExpr.remarks) :
    Attaches strict [] (Parser.constraintTerm ty) TypeExpr.remarks :=
  ifAsk (advance fun _ => h.any.bind fun _ => pure (.refl _)) h.any

theorem constraintWith (h : Attaches true [] ty TypeExpr.remarks) :
    Attaches strict [] (Parser.constraintWith ty) TypeExpr.remarks := by
  refine (constraintTerm h).bind fun first => ?_
  refine (bounded (operandsAfter (constraintTerm h))).bind fun more => pure ?_
  rw [remarks_foldl]
  exact .refl _

/-! ## Lists of fields -/

theorem entryType (h : Attaches true [] ty TypeExpr.remarks) (constraint : Bool) :
    Attaches strict [] (Parser.entryType ty constraint) TypeExpr.remarks := by
  cases constraint with
  | true => exact constraintWith h
  | false => exact h.any

theorem orVariadic {other : Parser TypeExpr} (h : Attaches true [] ty TypeExpr.remarks)
    (k : Attaches strict [] other TypeExpr.remarks) :
    Attaches strict [] (Parser.orVariadic ty other) TypeExpr.remarks :=
  ifAsk (advance fun _ => h.any.bind fun _ => pure (.refl _)) k

theorem nameAndType (h : Attaches true [] ty TypeExpr.remarks) (close : Lexeme) (constraint : Bool) :
    Attaches false [] (Parser.nameAndType ty close constraint) fun e => e.2.remarks := by
  refine ifAsk ((orVariadic h h.any).bind fun _ => pure (.refl _)) (ifAsk ?_ ?_)
  · exact ident fun _ => h.any.bind fun _ => pure (.refl _)
  · refine (entryType h constraint).bind fun x => ?_
    split
    · refine ask fun next => ?_
      split
      · exact pure (.refl _)
      · exact (orVariadic h (entryType h constraint)).bind fun _ => pure (.refl _)
    · exact pure (.refl _)

/-- The remarks on an entry and in its type. -/
def entryRemarks (e : Entry) : List Remark := e.type.remarks ++ Remark.ofNote e.comment

/-- Entries have the remarks of their types, and the comments behind them. -/
theorem entriesUntil {close : Lexeme} {entry : Parser (Option String × TypeExpr)}
    (h : Attaches false [] entry fun e => e.2.remarks) (n : Nat) :
    Attaches false [] (Parser.entriesUntil close entry n) fun es => es.flatMap entryRemarks := by
  induction n with
  | zero => exact fail _
  | succ n ih =>
    refine ifAsk (pure (.refl _)) (h.bind fun e => ifAsk (advance fun _ => ?_) ?_)
    · refine commentBehind fun comment => after .passSemis fun _ _ => ih.bind fun es => pure ?_
      exact .refl _
    · refine commentBehind fun comment => after .passSemis fun _ _ => pure ?_
      rw [List.flatMap_cons, List.flatMap_nil, List.append_nil]
      exact .refl _

/-- An entry that is a further name of the next one loses its remark; all others keep theirs. -/
theorem remarks_groupsTo {pending : List String} {es : List Entry} {fields : List Field}
    (h : GroupsTo pending es fields) :
    (remarksOfFields fields).Sublist (es.flatMap entryRemarks) := by
  induction h with
  | nil => exact .refl _
  | @field _ name type comment _ _ _ ih =>
    exact (List.Sublist.refl (entryRemarks ⟨some name, type, comment⟩)).append ih
  | name _ ih => exact ih.trans (List.sublist_append_right _ _)

/-- Entries that are put together to fields lose comments, and gain none. -/
theorem remarks_fieldsOf {es : List Entry} {fields : List Field} (h : fieldsOf es = .ok fields) :
    (remarksOfFields fields).Sublist (es.flatMap entryRemarks) := by
  unfold fieldsOf at h
  split at h
  · exact remarks_groupsTo (groupsTo_of_groupNames h)
  · cases h
    rw [remarksOfFields_eq_flatMap, List.flatMap_map]
    exact .refl _

/-- A list has remarks from between its brackets only. -/
theorem fieldListWith (h : Attaches true [] ty TypeExpr.remarks) {opening close : Lexeme}
    (opens : opening ≠ .eof) (closes : close ≠ .eof) (constraint : Bool) :
    Attaches strict [] (Parser.fieldListWith ty opening close constraint) remarksOfFields := by
  refine expect opens fun _ => after .passSemis fun _ _ => ?_
  refine (bounded (entriesUntil (nameAndType h close constraint))).bind fun es => ?_
  refine expect closes fun _ => ?_
  cases fields : fieldsOf es with
  | ok fs => exact pure (remarks_fieldsOf fields)
  | error cause => exact fail cause

theorem paramsWith (h : Attaches true [] ty TypeExpr.remarks) :
    Attaches strict [] (Parser.paramsWith ty) remarksOfFields :=
  fieldListWith h (by decide) (by decide) false

theorem resultsWith (h : Attaches true [] ty TypeExpr.remarks) :
    Attaches false [] (Parser.resultsWith ty) remarksOfFields := by
  refine ifAsk (paramsWith h) (ask fun t => ?_)
  split
  · refine h.any.bind fun x => pure ?_
    simp [remarksOfFields, Remark.ofDoc, Remark.ofNote]
  · exact pure (.refl _)

theorem signatureWith (h : Attaches true [] ty TypeExpr.remarks) :
    Attaches strict [] (Parser.signatureWith ty) TypeExpr.remarks :=
  (paramsWith h).bind fun _ => (resultsWith h).bind fun _ => pure (.refl _)

/-! ## Bodies -/

/-- A field has the documentation above it and the comment behind it, and between them the remarks of its
type. -/
theorem structFieldWith (h : Attaches true [] ty TypeExpr.remarks) :
    Attaches false [] (Parser.structFieldWith ty) Field.remarks := by
  refine docHere fun doc => after .fieldNames fun names _ => h.bind fun x => ?_
  exact after .fieldTag fun tag _ => commentBehind fun note => pure (.refl _)

/-- A member has the documentation above it and the comment behind it, and between them the remarks of its
type. -/
theorem interfaceMemberWith (h : Attaches true [] ty TypeExpr.remarks) :
    Attaches false [] (Parser.interfaceMemberWith ty) Field.remarks := by
  refine docHere fun doc => ifAsk (ident fun name => ?_) ?_
  · exact (signatureWith h).bind fun x => commentBehind fun note => pure (.refl _)
  · exact (constraintWith h).bind fun x => commentBehind fun note => pure (.refl _)

/-- An item and the end of its statement. -/
theorem statement {p : Parser α} {remarks : α → List Remark} (h : Attaches strict before p remarks) :
    Attaches strict before (do let x ← p; Parser.endStatement; Pure.pure x) remarks :=
  h.andThen fun _ => after .endStatement fun _ _ => pure (.refl _)

/-- A body has the remarks of its members, in order. -/
theorem bodyOf {member : Parser Field} (h : Attaches false [] member Field.remarks) :
    Attaches strict [] (Parser.bodyOf member) remarksOfFields := by
  refine expect (by decide) fun _ => (bounded (itemsUntil h.statement)).bind fun fields => ?_
  refine any (expect (by decide) fun _ => pure ?_)
  rw [remarksOfFields_eq_flatMap]
  exact .refl _

/-- A type from the types inside it. -/
theorem typeWith (h : Attaches true [] ty TypeExpr.remarks) :
    Attaches true [] (Parser.typeWith ty) TypeExpr.remarks := by
  refine ask fun t => ?_
  split
  · exact typeNameWith h
  · exact advance fun _ => h.bind fun _ => pure (.refl _)
  · exact advance fun _ => arrayWith h
  · exact advance fun _ => mapWith h
  · exact advance fun _ => channelWith h
  · exact advance fun _ => expect (by decide) fun _ => h.any.bind fun _ => pure (.refl _)
  · exact advance fun _ => signatureWith h
  · exact expect (by decide) fun _ => (bodyOf (structFieldWith h)).bind fun _ => pure (.refl _)
  · exact expect (by decide) fun _ => (bodyOf (interfaceMemberWith h)).bind fun _ => pure (.refl _)
  · refine advance fun _ => h.bind fun _ => any (expect (by decide) fun _ => pure (.refl _))
  · exact fail _

/-- By induction on the levels: the remarks of a type are attached between its first and its last token. -/
theorem typeWithin (n : Nat) : Attaches true [] (Parser.typeWithin n) TypeExpr.remarks := by
  induction n with
  | zero => exact fail _
  | succ n ih => exact typeWith ih

theorem type : Attaches true [] Parser.type TypeExpr.remarks := bounded typeWithin

/-! ## Declarations -/

theorem optional {look : Cursor → Bool} {p : Parser α} {x : α} {remarks : α → List Remark}
    (h : Attaches false [] p remarks) (none : remarks x = []) :
    Attaches false [] (Parser.optional look p x) remarks :=
  ifAsk h (pure (none ▸ .refl _))

theorem typeParams : Attaches strict [] Parser.typeParams remarksOfFields := by
  refine (fieldListWith type (by decide) (by decide) true).bind fun fields => ?_
  split
  · exact fail _
  · exact pure (.refl _)

/-- A type specification has its documentation, the remarks of its parameters and its type, and the comment
behind it. -/
theorem typeSpec (doc : Option CommentGroup) :
    Attaches strict (Remark.ofDoc doc) (Parser.typeSpec doc) TypeSpec.remarks := by
  rw [typeSpec_eq]
  refine ident fun name => (optional typeParams rfl).bind fun params => ask fun isAlias => ?_
  refine after (?_ : Quiet _ fun _ => True) fun _ _ => ?_
  · cases isAlias with
    | true => exact Quiet.advance.bind fun _ _ => .pure trivial
    | false => exact .pure trivial
  · exact type.any.bind fun x => commentBehind fun note => pure (.refl _)

theorem groupItem : Attaches false [] Parser.groupItem TypeSpec.remarks :=
  docHere fun doc => (typeSpec doc).statement

/-- What stands above a group is looked up and left. -/
theorem typeDeclHead : Attaches false [] Parser.typeDeclHead fun specs =>
    specs.flatMap TypeSpec.remarks := by
  refine docHere fun doc => expect (by decide) fun _ => ifAsk (advance fun _ => ?_) ?_
  · refine mono ?_ (List.nil_sublist _)
    refine (bounded (itemsUntil groupItem)).bind fun specs => any (expect (by decide) fun _ => ?_)
    exact pure (.refl _)
  · exact (typeSpec doc).andThen fun spec => pure_of_eq (List.flatMap_singleton ..)

theorem receiver : Attaches false [] Parser.receiver Field.remarks := by
  refine (fieldListWith type (by decide) (by decide) false).bind fun fields => ?_
  split
  · refine pure ?_
    rw [remarksOfFields_eq_flatMap, List.flatMap_cons, List.flatMap_nil, List.append_nil]
    exact .refl _
  · exact fail _

theorem someReceiver : Attaches false [] (some <$> Parser.receiver) fun recv =>
    remarksOfFields recv.toList := by
  rw [map_eq_pure_bind]
  refine receiver.bind fun recv => pure ?_
  rw [Option.toList_some, remarksOfFields_eq_flatMap, List.flatMap_cons, List.flatMap_nil,
    List.append_nil]
  exact .refl _

/-- What is passed without being read has no remarks. -/
theorem passCounted (count : List Token → Option Nat) (cause : ParseCause) :
    (Parser.passCounted count cause).Quiet fun _ => True := by
  intro c c' x run _
  obtain ⟨n, -, rfl⟩ := passCounted_eq_ok run
  exact ⟨.pass c n, trivial⟩

/-- A function has the remarks of its receiver, its parameters and its results; its body is passed. -/
theorem funcDeclHead : Attaches false [] Parser.funcDeclHead FuncDecl.remarks := by
  refine docHere fun doc => expect (by decide) fun _ => ?_
  refine (optional someReceiver rfl).bind fun recv => any (ident fun name => ?_)
  refine (optional typeParams rfl).bind fun typeParams => ?_
  refine (paramsWith type).bind fun params => (resultsWith type).bind fun results => ?_
  refine after (?_ : Quiet _ fun _ => True) fun _ _ => pure ?_
  · refine Quiet.ifAsk ?_ (.pure trivial)
    rw [passBlock_eq]
    exact (Quiet.expect _).bind fun _ _ => passCounted _ _
  · simp only [FuncDecl.remarks, FuncDecl.type, TypeExpr.remarks, List.append_assoc, List.nil_append]
    exact .refl _

theorem importHead : Parser.importHead.Quiet fun _ => True := by
  refine (Quiet.expect _).bind fun _ _ => Quiet.ifAsk ?_ ?_
  · refine Quiet.advance.bind fun _ _ => ?_
    rw [passImportGroup_eq]
    exact passCounted _ _
  · refine (Quiet.ask _).bind fun t _ => Quiet.bind (?_ : Quiet _ fun _ => True) fun _ _ => ?_
    · split
      · exact Quiet.advance.bind fun _ _ => .pure trivial
      · exact .pure trivial
    · refine (Quiet.ask _).bind fun path _ => ?_
      split
      · exact Quiet.advance.bind fun _ _ => .pure trivial
      · exact .fail _

/-- A statement with a head. -/
theorem statementOf {p : Parser α} {f : α → β} {remarks : α → List Remark}
    {remarks' : β → List Remark} (h : Attaches false [] p remarks)
    (k : ∀ x, remarks' (f x) = remarks x) : Attaches false [] (Parser.statementOf p f) remarks' :=
  h.bind fun x => after .endStatement fun _ _ => pure (k x ▸ .refl _)

/-- A declaration has the remarks of its parts. -/
theorem declaration : Attaches false [] Parser.declaration fun ds => ds.flatMap Decl.remarks := by
  rw [declaration_eq]
  refine ask fun t => ?_
  split
  · refine after importHead fun _ _ => after .endStatement fun _ _ => pure (.refl _)
  · exact statementOf typeDeclHead fun specs => List.flatMap_map ..
  · exact statementOf funcDeclHead fun decl => List.flatMap_singleton ..
  · exact fail _

/-- A file has the remarks of its declarations, in order. -/
theorem file : Attaches false [] Parser.file File.remarks := by
  refine after .passSemis fun _ _ => after (?_ : Quiet _ fun _ => True) fun package _ => ?_
  · refine Quiet.ifAsk (Quiet.advance.bind fun _ _ => Quiet.ident.bind fun name _ => ?_) (.pure trivial)
    exact Quiet.endStatement.bind fun _ _ => .pure trivial
  · refine (bounded (itemsUntil declaration)).bind fun decls => pure ?_
    rw [File.remarks, List.flatten_eq_flatMap, List.flatMap_assoc]
    exact .refl _

end Attaches

end Typings.Parser
