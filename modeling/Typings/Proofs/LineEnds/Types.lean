import Typings.Proofs.LineEnds.Parsers
import Typings.Proofs.LineEnds.Seen

/-!
# Types and carriage returns

The productions for types run alike: of the types that are read, the same is seen (`Parser.Alike.type`).
Of the length of an array nothing is seen, so it may hold literals that differ.
-/

namespace Typings

/-! ## Entries -/

namespace Parser

/-- What is seen of an entry of a field list. -/
def Entry.seen (e : Entry) : Entry :=
  ⟨e.name, e.type.seen, e.comment.map CommentGroup.plain⟩

/-- Entries that show the same are put together to fields that show the same. -/
theorem entriesShow_seen : EntriesShow Entry.seen Field.seen where
  name _ := rfl
  type _ _ := TypeExpr.seen_eq_name
  field _ _ := rfl

namespace Alike

variable {ty ty' : Parser TypeExpr}

/-! ## Lengths and constraints -/

/-- Operands with operators between them show what the operands show. -/
theorem chain {γ : Type} {see : TypeExpr → γ} {isOperator : Lexeme → Bool}
    {operand operand' : Parser TypeExpr} (plain : ∀ kind text, isOperator (.literal kind text) = false)
    (binary : ∀ {x x' y y' : TypeExpr} (op : String), see x' = see x → see y' = see y →
      see (.binary x' op y') = see (.binary x op y))
    (h : Alike see operand operand') :
    Alike see (Parser.chain isOperator operand) (Parser.chain isOperator operand') :=
  bind h fun _ _ first => bind (bounded fun n => operandsAfter plain h n) fun _ _ shows =>
    pure (foldl_binary_congr binary shows first)

theorem qualifiedFrom (name : String) : Alike id (Parser.qualifiedFrom name) (Parser.qualifiedFrom name) :=
  isAtIf rfl (advance fun _ _ => bind_id ident fun _ => pure rfl) (pure rfl)

/-- Nothing is seen of a length. -/
theorem lengthChain {operand operand' : Parser TypeExpr} (h : Alike (fun _ => ()) operand operand') :
    Alike (fun _ => ()) (Parser.chain isLengthOperator operand)
      (Parser.chain isLengthOperator operand') :=
  chain (fun _ _ => rfl) (fun _ _ _ => rfl) h

theorem lengthOperandWith {operand operand' : Parser TypeExpr} (h : Alike (fun _ => ()) operand operand') :
    Alike (fun _ => ()) (Parser.lengthOperandWith operand) (Parser.lengthOperandWith operand') := by
  refine current fun t u seen => ?_
  rcases Lexeme.eq_or_literal seen with same | ⟨kind, text, text', first, second⟩
  · rw [same]
    generalize t.lexeme = w
    split
    · exact advance fun _ _ => pure rfl
    · refine advance fun _ _ => bind_id (qualifiedFrom _) fun fn => isAtIf rfl ?_ (pure rfl)
      refine advance fun _ _ => bind (bounded fun n => commaItems rfl (lengthChain h) n) fun _ _ _ => ?_
      exact expect rfl fun _ _ => pure rfl
    · exact advance fun _ _ => bind (lengthChain h) fun _ _ _ => expect rfl fun _ _ => pure rfl
    · exact ite (advance fun _ _ => bind h fun _ _ _ => pure rfl) (fail _ _)
  · rw [first, second]
    exact advance fun _ _ => pure rfl

theorem lengthOperandWithin (n : Nat) :
    Alike (fun _ => ()) (Parser.lengthOperandWithin n) (Parser.lengthOperandWithin n) := by
  induction n with
  | zero => exact fail _ _
  | succ n ih => exact lengthOperandWith ih

theorem length : Alike (fun _ => ()) Parser.length Parser.length :=
  lengthChain (bounded lengthOperandWithin)

theorem constraintTerm (h : Alike TypeExpr.seen ty ty') :
    Alike TypeExpr.seen (Parser.constraintTerm ty) (Parser.constraintTerm ty') :=
  isAtIf rfl (advance fun _ _ => bind h fun _ _ shows => pure (congrArg (TypeExpr.unary "~") shows)) h

/-- What two operands show is what their operation shows. -/
theorem seen_binary {x x' y y' : TypeExpr} (op : String) (first : x'.seen = x.seen)
    (second : y'.seen = y.seen) : (TypeExpr.binary x' op y').seen = (TypeExpr.binary x op y).seen := by
  rw [TypeExpr.seen, TypeExpr.seen, first, second]

theorem constraintWith (h : Alike TypeExpr.seen ty ty') :
    Alike TypeExpr.seen (Parser.constraintWith ty) (Parser.constraintWith ty') :=
  chain (fun _ _ => rfl) seen_binary (constraintTerm h)

/-! ## Lists of fields -/

theorem entryType (h : Alike TypeExpr.seen ty ty') (constraint : Bool) :
    Alike TypeExpr.seen (Parser.entryType ty constraint) (Parser.entryType ty' constraint) :=
  ite (constraintWith h) h

theorem orVariadic {other other' : Parser TypeExpr} (h : Alike TypeExpr.seen ty ty')
    (k : Alike TypeExpr.seen other other') :
    Alike TypeExpr.seen (Parser.orVariadic ty other) (Parser.orVariadic ty' other') :=
  isAtIf rfl (advance fun _ _ => bind h fun _ _ shows => pure (congrArg TypeExpr.variadic shows)) k

theorem nameAndType (h : Alike TypeExpr.seen ty ty') {close : Lexeme} (plain : close.isLiteral = false)
    (constraint : Bool) :
    Alike (Prod.map id TypeExpr.seen) (Parser.nameAndType ty close constraint)
      (Parser.nameAndType ty' close constraint) := by
  have pair : ∀ (name : Option String) {x y : TypeExpr}, y.seen = x.seen →
      Prod.map id TypeExpr.seen (name, y) = Prod.map id TypeExpr.seen (name, x) :=
    fun _ _ _ shows => Prod.ext rfl shows
  refine isAtIf rfl (bind (orVariadic h h) fun _ _ shows => pure (pair none shows)) ?_
  refine askIf (fun d => d.showsNamedArray) ?_ ?_
  · exact bind_id ident fun name => bind h fun _ _ shows => pure (pair (some name) shows)
  · refine bind (entryType h constraint) fun x y shows => ?_
    split
    · next name =>
      obtain rfl : y = .name name := TypeExpr.seen_eq_name.1 shows
      refine current fun t u seen => ?_
      rw [decide_eq_decide.2 (Lexeme.eq_iff_of_seen rfl seen),
        decide_eq_decide.2 (Lexeme.eq_iff_of_seen plain seen)]
      refine ite (pure rfl) ?_
      exact bind (orVariadic h (entryType h constraint)) fun _ _ shows => pure (pair (some name) shows)
    · next unnamed =>
      split
      · next name => exact absurd (TypeExpr.seen_eq_name.1 shows.symm) (unnamed name)
      · exact pure (pair none shows)

/-- Entries are read alike one by one; a closing bracket is no literal. -/
theorem entriesUntil {close : Lexeme} (plain : close.isLiteral = false)
    {entry entry' : Parser (Option String × TypeExpr)}
    (h : Alike (Prod.map id TypeExpr.seen) entry entry') (n : Nat) :
    Alike (List.map Entry.seen) (Parser.entriesUntil close entry n)
      (Parser.entriesUntil close entry' n) := by
  have made : ∀ {e e' : Option String × TypeExpr} {comment comment' : Option CommentGroup},
      Prod.map id TypeExpr.seen e' = Prod.map id TypeExpr.seen e →
      comment'.map CommentGroup.plain = comment.map CommentGroup.plain →
      Entry.seen ⟨e'.1, e'.2, comment'⟩ = Entry.seen ⟨e.1, e.2, comment⟩ := by
    intro e e' comment comment' shows told
    obtain ⟨name, type⟩ := Prod.ext_iff.1 shows
    rw [Entry.seen, Entry.seen, told, show e'.1 = e.1 from name, show e'.2.seen = e.2.seen from type]
  induction n with
  | zero => exact fail _ _
  | succ n ih =>
    refine isAtIf plain (pure rfl) (bind h fun _ _ shows => isAtIf rfl ?_ ?_)
    · exact advance fun _ _ => bind commentBehind fun _ _ told => bind passSemis fun _ _ _ =>
        bind ih fun _ _ behind => pure (map_cons_congr (made shows told) behind)
    · exact bind commentBehind fun _ _ told => bind passSemis fun _ _ _ =>
        pure (map_cons_congr (made shows told) rfl)

theorem fieldListWith (h : Alike TypeExpr.seen ty ty') {opening close : Lexeme}
    (begins : opening.isLiteral = false) (ends : close.isLiteral = false) (constraint : Bool) :
    Alike (List.map Field.seen) (Parser.fieldListWith ty opening close constraint)
      (Parser.fieldListWith ty' opening close constraint) := by
  refine expect begins fun _ _ => bind passSemis fun _ _ _ => ?_
  refine bind (bounded fun n => entriesUntil ends (nameAndType h ends constraint) n) fun es es' shows => ?_
  refine expect ends fun _ _ => ?_
  obtain ⟨fs, fs', first, second, same⟩ | ⟨cause, first, second⟩ :=
    fieldsOf_congr entriesShow_seen shows
  · rw [first, second]
    exact pure same
  · rw [first, second]
    exact fail _ _

theorem paramsWith (h : Alike TypeExpr.seen ty ty') :
    Alike (List.map Field.seen) (Parser.paramsWith ty) (Parser.paramsWith ty') :=
  fieldListWith h rfl rfl false

theorem resultsWith (h : Alike TypeExpr.seen ty ty') :
    Alike (List.map Field.seen) (Parser.resultsWith ty) (Parser.resultsWith ty') := by
  refine isAtIf rfl (paramsWith h) (current fun t u seen => ?_)
  rw [Lexeme.congr_seen Lexeme.startsType_seen seen]
  refine ite (bind h fun x y shows => ?_) (pure rfl)
  have field : Field.seen { names := [], type := y } = Field.seen { names := [], type := x } := by
    rw [Field.seen, Field.seen, shows]
  exact pure (map_cons_congr field rfl)

theorem signatureWith (h : Alike TypeExpr.seen ty ty') :
    Alike TypeExpr.seen (Parser.signatureWith ty) (Parser.signatureWith ty') := by
  refine bind (paramsWith h) fun _ _ params => bind (resultsWith h) fun _ _ results => pure ?_
  rw [TypeExpr.seen_func, TypeExpr.seen_func, params, results]

/-! ## Bodies -/

theorem fieldNames : Alike id Parser.fieldNames Parser.fieldNames := by
  refine askIf (fun d => d.showsFieldName) ?_ (pure rfl)
  exact bind_id ident fun _ => bind_id (bounded moreNames) fun _ => pure rfl

/-- Nothing is seen of a tag. -/
theorem fieldTag : Alike (fun _ => ()) Parser.fieldTag Parser.fieldTag := by
  refine current fun t u seen => ?_
  rw [Lexeme.congr_seen Lexeme.isString_seen seen]
  exact ite (advance fun _ _ => pure rfl) (pure rfl)

/-- Fields whose parts show the same show the same. -/
theorem seen_field {names : List String} {type type' : TypeExpr} {doc doc' : Option CommentGroup}
    {comment comment' : Option CommentGroup} {tag tag' : Option String} (types : type'.seen = type.seen)
    (docs : doc'.map CommentGroup.plain = doc.map CommentGroup.plain)
    (comments : comment'.map CommentGroup.plain = comment.map CommentGroup.plain) :
    Field.seen ⟨names, type', doc', comment', tag'⟩ = Field.seen ⟨names, type, doc, comment, tag⟩ := by
  rw [Field.seen, Field.seen, types, docs, comments]

/-- A field shows the same, its tag and the blanks in it apart. -/
theorem structFieldWith (h : Alike TypeExpr.seen ty ty') :
    Alike Field.seen (Parser.structFieldWith ty) (Parser.structFieldWith ty') := by
  refine bind docHere fun _ _ docs => bind_id fieldNames fun _ => bind h fun _ _ types => ?_
  exact bind fieldTag fun _ _ _ => bind commentBehind fun _ _ comments =>
    pure (seen_field types docs comments)

theorem interfaceMemberWith (h : Alike TypeExpr.seen ty ty') :
    Alike Field.seen (Parser.interfaceMemberWith ty) (Parser.interfaceMemberWith ty') := by
  refine bind docHere fun _ _ docs => askIf (fun d => d.showsMethod) ?_ ?_
  · exact bind_id ident fun _ => bind (signatureWith h) fun _ _ types =>
      bind commentBehind fun _ _ comments => pure (seen_field types docs comments)
  · exact bind (constraintWith h) fun _ _ types => bind commentBehind fun _ _ comments =>
      pure (seen_field types docs comments)

/-- A body shows what its members show. -/
theorem bodyOf {member member' : Parser Field} (h : Alike Field.seen member member') :
    Alike (List.map Field.seen) (Parser.bodyOf member) (Parser.bodyOf member') := by
  refine expect rfl fun _ _ => bind (bounded fun n => itemsUntil rfl h.statement n) fun _ _ fields => ?_
  exact expect rfl fun _ _ => pure fields

theorem structTypeWith (h : Alike TypeExpr.seen ty ty') :
    Alike TypeExpr.seen (Parser.structTypeWith ty) (Parser.structTypeWith ty') := by
  refine expect rfl fun _ _ => bind (bodyOf (structFieldWith h)) fun _ _ fields => pure ?_
  rw [TypeExpr.seen_struct, TypeExpr.seen_struct, fields]

theorem interfaceTypeWith (h : Alike TypeExpr.seen ty ty') :
    Alike TypeExpr.seen (Parser.interfaceTypeWith ty) (Parser.interfaceTypeWith ty') := by
  refine expect rfl fun _ _ => bind (bodyOf (interfaceMemberWith h)) fun _ _ methods => pure ?_
  rw [TypeExpr.seen_interface, TypeExpr.seen_interface, methods]

/-! ## Types -/

theorem typeNameWith (h : Alike TypeExpr.seen ty ty') :
    Alike TypeExpr.seen (Parser.typeNameWith ty) (Parser.typeNameWith ty') := by
  refine bind_id ident fun name => bind_id (qualifiedFrom name) fun base => ?_
  refine askIf (fun d => d.showsTypeArgs) (advance fun _ _ => ?_) (pure rfl)
  refine bind (bounded fun n => commaItems rfl h n) fun _ _ args => expect rfl fun _ _ => pure ?_
  rw [TypeExpr.seen_generic, TypeExpr.seen_generic, args]

theorem arrayWith (h : Alike TypeExpr.seen ty ty') :
    Alike TypeExpr.seen (Parser.arrayWith ty) (Parser.arrayWith ty') := by
  have element : ∀ (size size' : Option TypeExpr), Alike TypeExpr.seen
      (do let elt ← ty; Pure.pure (.array elt size)) (do let elt ← ty'; Pure.pure (.array elt size')) :=
    fun _ _ => bind h fun _ _ shows => pure (congrArg (TypeExpr.array · none) shows)
  refine isAtIf rfl (advance fun _ _ => element _ _) (isAtIf rfl (advance fun _ _ => ?_) ?_)
  · exact expect rfl fun _ _ => element _ _
  · exact bind length fun _ _ _ => expect rfl fun _ _ => element _ _

theorem mapWith (h : Alike TypeExpr.seen ty ty') :
    Alike TypeExpr.seen (Parser.mapWith ty) (Parser.mapWith ty') :=
  expect rfl fun _ _ => bind h fun _ _ _ => expect rfl fun _ _ => bind h fun _ _ _ => pure rfl

theorem channelWith (h : Alike TypeExpr.seen ty ty') :
    Alike TypeExpr.seen (Parser.channelWith ty) (Parser.channelWith ty') :=
  isAtIf rfl (advance fun _ _ => bind h fun _ _ _ => pure rfl) (bind h fun _ _ _ => pure rfl)

/-- Each form of a type shows the same, as the types inside of it do. -/
theorem typeWith (h : Alike TypeExpr.seen ty ty') :
    Alike TypeExpr.seen (Parser.typeWith ty) (Parser.typeWith ty') := by
  refine current fun t u seen => ?_
  rcases Lexeme.eq_or_literal seen with same | ⟨kind, text, text', first, second⟩
  · rw [same]
    split
    · exact typeNameWith h
    · exact advance fun _ _ => bind h fun _ _ shows => pure (congrArg TypeExpr.pointer shows)
    · exact advance fun _ _ => arrayWith h
    · exact advance fun _ _ => mapWith h
    · exact advance fun _ _ => channelWith h
    · exact advance fun _ _ => expect rfl fun _ _ => bind h fun _ _ _ => pure rfl
    · exact advance fun _ _ => signatureWith h
    · exact structTypeWith h
    · exact interfaceTypeWith h
    · exact advance fun _ _ => bind h fun _ _ shows => expect rfl fun _ _ =>
        pure (congrArg TypeExpr.paren shows)
    · exact fail _ _
  · rw [first, second]
    exact fail _ _

/-- By induction on the levels. -/
theorem typeWithin (n : Nat) : Alike TypeExpr.seen (Parser.typeWithin n) (Parser.typeWithin n) := by
  induction n with
  | zero => exact fail _ _
  | succ n ih => exact typeWith ih

theorem type : Alike TypeExpr.seen Parser.type Parser.type := bounded typeWithin

end Alike

end Parser

end Typings
