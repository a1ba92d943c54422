import Typings.Proofs.Behind.Visits
import Typings.Proofs.Joined.Decls

/-!
# What the productions visit

Every production visits the struct fields, interface elements and type specifications in what it gives,
in the order in which they end, down from types to whole files (`Parser.Visits.file`). A type ends at a
firm place: its last token is passed after all comments inside it have been claimed.
-/

namespace Typings.Parser

variable {α β : Type} {firm firm' : Bool} {before : List Notable}

namespace Visits

/-! ## Lengths -/

/-- The notables of operands put together are those of the operands. -/
theorem notables_foldl (xs : List (String × TypeExpr)) (x : TypeExpr) :
    (xs.foldl (fun x (op, y) => .binary x op y) x).notables =
      x.notables ++ xs.flatMap fun x => x.2.notables := by
  induction xs generalizing x with
  | nil => exact (List.append_nil _).symm
  | cons y ys ih => rw [List.foldl_cons, ih, TypeExpr.notables, List.append_assoc, List.flatMap_cons]

/-- A chain of operands visits the notables of the operands. -/
theorem chain {isOperator : Lexeme → Bool} {operand : Parser TypeExpr}
    (first : Visits firm firm' [] operand TypeExpr.notables)
    (more : Visits firm' firm' [] operand TypeExpr.notables) :
    Visits firm firm' [] (Parser.chain isOperator operand) TypeExpr.notables :=
  first.bind fun x => (bounded (operandsAfter more)).bind fun xs => pure (notables_foldl xs x)

theorem qualifiedFrom (name : String) :
    Visits firm firm [] (Parser.qualifiedFrom name) TypeExpr.notables := by
  apply ifAsk
  · exact advance fun _ => ident fun _ => ends (pure rfl)
  · exact pure rfl

theorem lengthOperandWith {operand : Parser TypeExpr}
    (h : Visits firm firm [] operand TypeExpr.notables) :
    Visits firm firm [] (Parser.lengthOperandWith operand) TypeExpr.notables := by
  apply ask
  intro t
  split
  · exact advance fun _ => pure rfl
  · refine advance fun _ => (qualifiedFrom _).bind fun fn => ?_
    apply ifAsk
    · refine advance fun _ => (bounded (commaItems (chain h h))).bind fun args => ?_
      refine expect (by decide) fun _ => ends (pure ?_)
      rw [TypeExpr.notables, notablesOfTypes_eq_flatMap]
      rfl
    · exact pure rfl
  · exact advance fun _ => (chain h h).bind fun _ => expect (by decide) fun _ => ends (pure rfl)
  · split
    · exact advance fun _ => h.bind fun _ => pure rfl
    · exact fail _

/-- By induction on the levels: an operand of a length is passed with its notables visited. -/
theorem lengthOperandWithin (n : Nat) :
    Visits firm firm [] (Parser.lengthOperandWithin n) TypeExpr.notables := by
  induction n with
  | zero => exact fail _
  | succ n ih => exact lengthOperandWith ih

theorem length : Visits firm firm [] Parser.length TypeExpr.notables :=
  chain (bounded lengthOperandWithin) (bounded lengthOperandWithin)

/-! ## Constraints -/

variable {ty : Parser TypeExpr}

theorem constraintTerm (h : Visits false true [] ty TypeExpr.notables) :
    Visits firm true [] (Parser.constraintTerm ty) TypeExpr.notables := by
  apply ifAsk
  · exact advance fun _ => h.any.bind fun _ => pure rfl
  · exact h.any

theorem constraintWith (h : Visits false true [] ty TypeExpr.notables) :
    Visits firm true [] (Parser.constraintWith ty) TypeExpr.notables :=
  chain (constraintTerm h) (constraintTerm h)

/-! ## Lists of fields -/

theorem entryType (h : Visits false true [] ty TypeExpr.notables) (constraint : Bool) :
    Visits firm true [] (Parser.entryType ty constraint) TypeExpr.notables := by
  cases constraint with
  | true => exact constraintWith h
  | false => exact h.any

theorem orVariadic {other : Parser TypeExpr} (h : Visits false true [] ty TypeExpr.notables)
    (k : Visits firm true [] other TypeExpr.notables) :
    Visits firm true [] (Parser.orVariadic ty other) TypeExpr.notables := by
  apply ifAsk
  · exact advance fun _ => h.any.bind fun _ => pure rfl
  · exact k

theorem nameAndType (h : Visits false true [] ty TypeExpr.notables) (close : Lexeme)
    (constraint : Bool) :
    Visits false true [] (Parser.nameAndType ty close constraint) fun e => e.2.notables := by
  apply ifAsk
  · exact (orVariadic h h).bind fun _ => pure rfl
  · apply ifAsk
    · exact ident fun _ => h.any.bind fun _ => pure rfl
    · apply (entryType h constraint).bind
      intro x
      split
      · apply ask
        intro next
        split
        · exact pure rfl
        · exact (orVariadic h (entryType h constraint)).bind fun _ => pure rfl
      · exact pure rfl

/-- Entries are visited one by one. -/
theorem entriesUntil {close : Lexeme} {entry : Parser (Option String × TypeExpr)}
    (h : Visits false true [] entry fun e => e.2.notables) (n : Nat) :
    Visits false false [] (Parser.entriesUntil close entry n) fun es =>
      es.flatMap fun e => e.type.notables := by
  induction n with
  | zero => exact fail _
  | succ n ih =>
    apply ifAsk (pure rfl)
    apply h.bind
    intro e
    apply ifAsk
    · exact advance fun _ => commentBehind fun _ => passSemis fun _ => ih.bind fun es => pure rfl
    · exact commentBehind fun _ => passSemis fun _ => pure (List.flatMap_singleton ..)

/-- A bare name holds nothing, so that a further name of a field may be left out. -/
theorem notables_groupsTo {pending : List String} {es : List Entry} {fields : List Field}
    (h : GroupsTo pending es fields) :
    notablesOfFields (fun _ => []) fields = es.flatMap fun e => e.type.notables := by
  induction h with
  | nil => rfl
  | field _ ih => rw [List.flatMap_cons, notablesOfFields, List.append_nil, ih]
  | name _ ih => exact ih

/-- Entries that are put together to fields have the notables of these. -/
theorem notables_fieldsOf {es : List Entry} {fields : List Field} (h : fieldsOf es = .ok fields) :
    notablesOfFields (fun _ => []) fields = es.flatMap fun e => e.type.notables := by
  unfold fieldsOf at h
  split at h
  · exact notables_groupsTo (groupsTo_of_groupNames h)
  · cases h
    rw [notablesOfFields_eq_flatMap, List.flatMap_map]
    simp only [List.append_nil]

/-- A list in brackets visits the notables of its entries. -/
theorem fieldListWith (h : Visits false true [] ty TypeExpr.notables) {opening close : Lexeme}
    (opens : opening ≠ .eof) (closes : close ≠ .eof) (constraint : Bool) :
    Visits firm true [] (Parser.fieldListWith ty opening close constraint)
      (notablesOfFields fun _ => []) := by
  refine expect opens fun _ => passSemis fun _ => ?_
  have entry := nameAndType h close constraint
  refine (bounded fun n => (entriesUntil entry n).any).bind fun es => expect closes fun _ => ?_
  cases fields : fieldsOf es with
  | ok fs => exact pure (notables_fieldsOf fields)
  | error cause => exact fail cause

theorem paramsWith (h : Visits false true [] ty TypeExpr.notables) :
    Visits firm true [] (Parser.paramsWith ty) (notablesOfFields fun _ => []) :=
  fieldListWith h (by decide) (by decide) false

theorem resultsWith (h : Visits false true [] ty TypeExpr.notables) :
    Visits true true [] (Parser.resultsWith ty) (notablesOfFields fun _ => []) := by
  apply ifAsk (paramsWith h)
  apply ask
  intro t
  split
  · refine h.any.bind fun x => pure ?_
    simp [notablesOfFields]
  · exact pure rfl

theorem signatureWith (h : Visits false true [] ty TypeExpr.notables) :
    Visits firm true [] (Parser.signatureWith ty) TypeExpr.notables :=
  (paramsWith h).bind fun _ => (resultsWith h).bind fun _ => pure rfl

/-! ## Bodies -/

theorem fieldNames : Visits firm firm [] Parser.fieldNames fun _ => [] := by
  apply ifAsk
  · exact ident fun _ => ends ((bounded moreNames).bind fun _ => pure rfl)
  · exact pure rfl

theorem fieldTag : Visits firm firm [] Parser.fieldTag fun _ => [] := by
  apply ask
  intro t
  split
  · exact advance fun _ => pure rfl
  · exact pure rfl

/-- A field is visited behind its type, where the comment behind it is looked up. -/
theorem structFieldWith {n : Nat} (h : Visits false true [] (Parser.typeWithin n) TypeExpr.notables) :
    Visits false false [] (Parser.structFieldWith (Parser.typeWithin n)) fun f =>
      f.type.notables ++ [.field f] := by
  have form : Parser.structFieldWith (Parser.typeWithin n) = (do
      let f ← (do
        let doc ← docHere
        let names ← Parser.fieldNames
        let type ← Parser.typeWithin n
        let tag ← Parser.fieldTag
        Pure.pure ({ names := names, type := type, doc := doc, tag := tag } : Field))
      let comment ← Parser.commentBehind
      Pure.pure { f with comment := comment }) := by
    simp only [Parser.structFieldWith, bind_assoc, pure_bind]
  rw [form]
  apply visit (fun f => f.type.notables) Notable.field (fun run => ⟨n, form ▸ run⟩) (fun _ _ => rfl)
    (fun _ _ => rfl)
  apply ask
  intro doc
  exact fieldNames.after fun names => h.bind fun type => fieldTag.after fun tag => pure rfl

/-- A member is visited behind its type, where the comment behind it is looked up. -/
theorem interfaceMemberWith {n : Nat}
    (h : Visits false true [] (Parser.typeWithin n) TypeExpr.notables) :
    Visits false false [] (Parser.interfaceMemberWith (Parser.typeWithin n)) fun f =>
      f.type.notables ++ [.element f] := by
  have form : Parser.interfaceMemberWith (Parser.typeWithin n) = (do
      let f ← (do
        let doc ← docHere
        if ← Parser.ask Cursor.showsMethod then
          let name ← Parser.ident
          let type ← Parser.signatureWith (Parser.typeWithin n)
          Pure.pure ({ names := [name], type := type, doc := doc } : Field)
        else
          let type ← Parser.constraintWith (Parser.typeWithin n)
          Pure.pure { names := [], type := type, doc := doc })
      let comment ← Parser.commentBehind
      Pure.pure { f with comment := comment }) := by
    simp only [Parser.interfaceMemberWith, bind_assoc, pure_bind, ite_bind]
  rw [form]
  apply visit (fun f => f.type.notables) Notable.element (fun run => ⟨n, form ▸ run⟩)
    (fun _ _ => rfl) (fun _ _ => rfl)
  apply ask
  intro doc
  apply ifAsk
  · exact ident fun name => (signatureWith h).bind fun type => pure rfl
  · exact (constraintWith h).bind fun type => pure rfl

/-- The members of a body are visited in order. -/
theorem bodyOf {member : Parser Field} {as : Field → List Notable}
    (h : Visits false false [] member fun f => f.type.notables ++ as f) :
    Visits firm true [] (Parser.bodyOf member) (notablesOfFields as) := by
  refine expect (by decide) fun _ => ?_
  refine (bounded fun n => (itemsUntil h.statement n).any).bind fun fields => ?_
  exact expect (by decide) fun _ => pure (notablesOfFields_eq_flatMap as fields)

/-! ## Types -/

theorem typeNameWith (h : Visits false true [] ty TypeExpr.notables) :
    Visits firm true [] (Parser.typeNameWith ty) TypeExpr.notables := by
  refine ident fun name => (qualifiedFrom name).bind fun base => ?_
  apply ifAsk
  · refine advance fun _ => (bounded (commaItems h.any)).bind fun args => ?_
    refine expect (by decide) fun _ => pure ?_
    rw [TypeExpr.notables, notablesOfTypes_eq_flatMap]
    rfl
  · exact pure rfl

theorem arrayWith (h : Visits false true [] ty TypeExpr.notables) :
    Visits firm true [] (Parser.arrayWith ty) TypeExpr.notables := by
  apply ifAsk
  · exact advance fun _ => h.any.bind fun elt => pure rfl
  · apply ifAsk
    · exact advance fun _ => expect (by decide) fun _ => h.any.bind fun elt => pure rfl
    · exact length.bind fun size => expect (by decide) fun _ => h.any.bind fun elt => pure rfl

theorem mapWith (h : Visits false true [] ty TypeExpr.notables) :
    Visits firm true [] (Parser.mapWith ty) TypeExpr.notables := by
  refine expect (by decide) fun _ => h.any.bind fun key => ?_
  exact expect (by decide) fun _ => h.any.bind fun value => pure rfl

theorem channelWith (h : Visits false true [] ty TypeExpr.notables) :
    Visits firm true [] (Parser.channelWith ty) TypeExpr.notables := by
  apply ifAsk
  · exact advance fun _ => h.any.bind fun _ => pure rfl
  · exact h.any.bind fun _ => pure rfl

/-- A type from the types inside it. -/
theorem typeWith {n : Nat} (h : Visits false true [] (Parser.typeWithin n) TypeExpr.notables) :
    Visits false true [] (Parser.typeWith (Parser.typeWithin n)) TypeExpr.notables := by
  apply ask
  intro t
  split
  · exact typeNameWith h
  · exact advance fun _ => h.bind fun _ => pure rfl
  · exact advance fun _ => arrayWith h
  · exact advance fun _ => mapWith h
  · exact advance fun _ => channelWith h
  · exact advance fun _ => expect (by decide) fun _ => h.any.bind fun _ => pure rfl
  · exact advance fun _ => signatureWith h
  · exact expect (by decide) fun _ => (bodyOf (structFieldWith h)).bind fun _ => pure rfl
  · exact expect (by decide) fun _ => (bodyOf (interfaceMemberWith h)).bind fun _ => pure rfl
  · exact advance fun _ => h.bind fun _ => expect (by decide) fun _ => pure rfl
  · exact fail _

/-- By induction on the levels: a type is passed with the fields and elements inside of it visited. -/
theorem typeWithin (n : Nat) : Visits false true [] (Parser.typeWithin n) TypeExpr.notables := by
  induction n with
  | zero => exact fail _
  | succ n ih => exact typeWith ih

theorem type : Visits firm true [] Parser.type TypeExpr.notables := bounded fun n => (typeWithin n).any

/-! ## Declarations -/

theorem optional {look : Cursor → Bool} {p : Parser α} {x : α} {notables : α → List Notable}
    (h : Visits firm firm [] p notables) (none : notables x = []) :
    Visits firm firm [] (Parser.optional look p x) notables :=
  ifAsk h (pure none)

theorem typeParams : Visits firm true [] Parser.typeParams (notablesOfFields fun _ => []) := by
  apply (fieldListWith type (by decide) (by decide) true).bind
  intro fields
  split
  · exact fail _
  · exact pure rfl

/-- A specification is visited behind its type, where the comment behind it is looked up. -/
theorem typeSpec (doc : Option CommentGroup) :
    Visits false false [] (Parser.typeSpec doc) TypeSpec.notables := by
  have form : Parser.typeSpec doc = (do
      let spec ← (do
        let name ← Parser.ident
        let params ← Parser.optional showsTypeParams Parser.typeParams []
        let isAlias ← Parser.isAt (.op .assign)
        let _ ← (if isAlias then discard Parser.advance else Pure.pure ())
        let type ← Parser.type
        Pure.pure ({ name := name, type := type, typeParams := params, doc := doc,
                     isAlias := isAlias } : TypeSpec))
      let comment ← Parser.commentBehind
      Pure.pure { spec with comment := comment }) := by
    simp only [typeSpec_eq, bind_assoc, pure_bind]
  rw [form]
  apply visit (fun spec => notablesOfFields (fun _ => []) spec.typeParams ++ spec.type.notables)
    Notable.typeSpec (fun run => ⟨doc, form ▸ run⟩) (fun _ _ => rfl) (fun _ _ => rfl)
  refine ident fun name => (optional typeParams rfl).bind fun params => ask fun isAlias => ?_
  refine after (?_ : Visits true true [] _ fun _ => []) fun _ => type.bind fun x => pure rfl
  cases isAlias with
  | true => exact advance fun _ => pure rfl
  | false => exact pure rfl

theorem groupItem : Visits false false [] Parser.groupItem TypeSpec.notables :=
  ask fun doc => (typeSpec doc).statement

theorem typeDeclHead : Visits false false [] Parser.typeDeclHead fun specs =>
    specs.flatMap TypeSpec.notables := by
  refine ask fun doc => expect (by decide) fun _ => ?_
  apply ifAsk
  · refine advance fun _ => (bounded fun n => (itemsUntil groupItem n).any).bind fun specs => ?_
    exact expect (by decide) fun _ => ends (pure rfl)
  · exact (typeSpec doc).any.bind fun spec => pure (List.flatMap_singleton ..)

theorem someReceiver : Visits firm true [] (some <$> Parser.receiver) fun recv =>
    notablesOfFields (fun _ => []) recv.toList := by
  rw [map_eq_pure_bind]
  unfold Parser.receiver
  simp only [bind_assoc]
  apply (fieldListWith type (by decide) (by decide) false).bind
  intro fields
  split
  · exact pure rfl
  · exact fail _

/-- Nothing is visited on tokens that are passed over. -/
theorem passCounted (count : List Token → Option Nat) (cause : ParseCause) :
    Visits firm firm [] (Parser.passCounted count cause) fun _ => [] := by
  intro c c' x run ended
  obtain ⟨n, -, rfl⟩ := passCounted_eq_ok run
  exact ⟨[], [], .pass n (.stay _ _), .slnil, List.forall_mem_nil _, rfl, ended⟩

/-- A function visits what is in its receiver, its parameters and its results. -/
theorem funcDeclHead : Visits false false [] Parser.funcDeclHead FuncDecl.notables := by
  refine ask fun doc => expect (by decide) fun _ => ?_
  refine (optional someReceiver rfl).bind fun recv => ident fun name => ?_
  refine (optional typeParams rfl).bind fun typeParams => (paramsWith type).bind fun params => ?_
  refine (resultsWith type).bind fun results => ?_
  refine after (?_ : Visits true true [] _ fun _ => []) fun _ => ends (pure ?_)
  · apply ifAsk
    · rw [passBlock_eq]
      exact expect (by decide) fun _ => passCounted _ _
    · exact pure rfl
  · simp only [FuncDecl.notables, FuncDecl.type, TypeExpr.notables, List.append_assoc, List.nil_append]

theorem importHead : Visits firm firm [] Parser.importHead fun _ => [] := by
  refine expect (by decide) fun _ => ends ?_
  apply ifAsk
  · refine advance fun _ => ?_
    rw [passImportGroup_eq]
    exact passCounted _ _
  · apply ask
    intro t
    refine after (?_ : Visits true true [] _ fun _ => []) fun _ => ask fun path => ?_
    · split
      · exact advance fun _ => pure rfl
      · exact pure rfl
    · split
      · exact advance fun _ => pure rfl
      · exact fail _

/-- A statement with a head. -/
theorem statementOf {p : Parser α} {f : α → β} {notables : α → List Notable}
    {notables' : β → List Notable} (h : Visits false false [] p notables)
    (same : ∀ x, notables' (f x) = notables x) :
    Visits false false [] (Parser.statementOf p f) notables' :=
  h.bind fun x => endStatement.after fun _ => pure (same x)

/-- A declaration visits its specifications in order. -/
theorem declaration : Visits false false [] Parser.declaration fun ds => ds.flatMap Decl.notables := by
  rw [declaration_eq]
  apply ask
  intro t
  split
  · exact statementOf importHead fun _ => rfl
  · exact statementOf typeDeclHead fun specs => List.flatMap_map ..
  · exact statementOf funcDeclHead fun decl => List.flatMap_singleton ..
  · exact fail _

/-- A file visits its declarations in order, from its first token to its last. -/
theorem file : Visits false false [] Parser.file File.notables := by
  refine passSemis fun _ => after (?_ : Visits false false [] _ fun _ => []) fun package => ?_
  · apply ifAsk
    · exact advance fun _ => ident fun name => endStatement.after fun _ => ends (pure rfl)
    · exact pure rfl
  · refine (bounded (itemsUntil declaration)).bind fun decls => pure ?_
    rw [File.notables, List.flatten_eq_flatMap, List.flatMap_assoc]
    rfl

end Visits

end Typings.Parser
