import Typings.Proofs.Grouped.Tracks
import Typings.Proofs.Joined.Decls

/-!
# Types at cursors that agree

The productions for types and for type specifications track each other: at cursors that agree, a
specification is read at the second if one is read at the first, and the two are the same up to the
comments that are told apart (`Parser.Tracks.typeSpec`).
-/

namespace Typings.Parser

/-- The entry of a field list with all comments on it and in it put through a function. -/
def Entry.mapComments (f : CommentGroup → Option CommentGroup) (e : Entry) : Entry :=
  ⟨e.name, e.type.mapComments f, e.comment.bind f⟩

section fields

variable {f : CommentGroup → Option CommentGroup}

/-- Entries and the fields that they are put together to have their comments changed alike. -/
theorem entriesShow_mapComments : EntriesShow (Entry.mapComments f) (Field.mapComments f) where
  name _ := rfl
  type _ _ := TypeExpr.mapComments_eq_name
  field _ _ := rfl

/-- Fields whose types and remarks look alike look alike. -/
theorem mapComments_field {names : List String} {type type' : TypeExpr}
    {doc doc' comment comment' : Option CommentGroup} {tag : Option String}
    (types : type'.mapComments f = type.mapComments f) (docs : doc'.bind f = doc.bind f)
    (comments : comment'.bind f = comment.bind f) :
    Field.mapComments f ⟨names, type', doc', comment', tag⟩ =
      Field.mapComments f ⟨names, type, doc, comment, tag⟩ := by
  rw [Field.mapComments, Field.mapComments, types, docs, comments]

end fields

namespace Tracks

variable {f : CommentGroup → Option CommentGroup} {R : Cursor → Cursor → Prop}

variable (agree : Cursor.Agree f R) {ty ty' : Parser TypeExpr}
include agree

/-- Operands with operators between them are followed as the operands are. -/
theorem chain {see : TypeExpr → TypeExpr} {isOperator : Lexeme → Bool}
    {operand operand' : Parser TypeExpr}
    (binary : ∀ {x x' y y' : TypeExpr} (op : String), see x' = see x → see y' = see y →
      see (.binary x' op y') = see (.binary x op y))
    (h : Tracks R see operand operand') :
    Tracks R see (Parser.chain isOperator operand) (Parser.chain isOperator operand') :=
  bind h fun _ _ first => bind (bounded agree fun n => operandsAfter agree h n) fun _ _ shows =>
    pure (foldl_binary_congr binary shows first)

/-! ## Lengths and constraints -/

theorem qualifiedFrom (name : String) :
    Tracks R id (Parser.qualifiedFrom name) (Parser.qualifiedFrom name) :=
  isAtIf agree (advance agree fun _ _ => bind_id (ident agree) fun _ => pure rfl) (pure rfl)

theorem lengthChain {operand operand' : Parser TypeExpr} (h : Tracks R id operand operand') :
    Tracks R id (Parser.chain isLengthOperator operand) (Parser.chain isLengthOperator operand') := by
  refine chain agree (fun op first second => ?_) h
  rw [id, id] at first second ⊢
  rw [first, second]

theorem lengthOperandWith {operand operand' : Parser TypeExpr} (h : Tracks R id operand operand') :
    Tracks R id (Parser.lengthOperandWith operand) (Parser.lengthOperandWith operand') := by
  refine current agree fun t u same => ?_
  rw [same]
  generalize t.lexeme = w
  split
  · exact advance agree fun _ _ => pure rfl
  · refine advance agree fun _ _ => bind_id (qualifiedFrom agree _) fun fn => ?_
    refine isAtIf agree (advance agree fun _ _ => ?_) (pure rfl)
    refine bind (bounded agree fun n => commaItems agree (lengthChain agree h) n) fun _ _ args => ?_
    rw [List.map_id, List.map_id] at args
    exact expect agree fun _ _ => pure (congrArg (TypeExpr.call fn) args)
  · exact advance agree fun _ _ => bind_id (lengthChain agree h) fun _ =>
      expect agree fun _ _ => pure rfl
  · exact ite (advance agree fun _ _ => bind_id h fun _ => pure rfl) (fail _ _)

theorem lengthOperandWithin (n : Nat) :
    Tracks R id (Parser.lengthOperandWithin n) (Parser.lengthOperandWithin n) := by
  induction n with
  | zero => exact fail _ _
  | succ n ih => exact lengthOperandWith agree ih

theorem length : Tracks R id Parser.length Parser.length :=
  lengthChain agree (bounded agree (lengthOperandWithin agree))

theorem constraintTerm (h : Tracks R (TypeExpr.mapComments f) ty ty') :
    Tracks R (TypeExpr.mapComments f) (Parser.constraintTerm ty) (Parser.constraintTerm ty') :=
  isAtIf agree
    (advance agree fun _ _ => bind h fun _ _ shows => pure (congrArg (TypeExpr.unary "~") shows)) h

theorem constraintWith (h : Tracks R (TypeExpr.mapComments f) ty ty') :
    Tracks R (TypeExpr.mapComments f) (Parser.constraintWith ty) (Parser.constraintWith ty') := by
  refine chain agree (fun op first second => ?_) (constraintTerm agree h)
  rw [TypeExpr.mapComments, TypeExpr.mapComments, first, second]

/-! ## Lists of fields -/

theorem entryType (h : Tracks R (TypeExpr.mapComments f) ty ty') (constraint : Bool) :
    Tracks R (TypeExpr.mapComments f) (Parser.entryType ty constraint)
      (Parser.entryType ty' constraint) :=
  ite (constraintWith agree h) h

theorem orVariadic {other other' : Parser TypeExpr} (h : Tracks R (TypeExpr.mapComments f) ty ty')
    (h' : Tracks R (TypeExpr.mapComments f) other other') :
    Tracks R (TypeExpr.mapComments f) (Parser.orVariadic ty other) (Parser.orVariadic ty' other') :=
  isAtIf agree
    (advance agree fun _ _ => bind h fun _ _ shows => pure (congrArg TypeExpr.variadic shows)) h'

theorem nameAndType (h : Tracks R (TypeExpr.mapComments f) ty ty') (close : Lexeme)
    (constraint : Bool) :
    Tracks R (Prod.map id (TypeExpr.mapComments f)) (Parser.nameAndType ty close constraint)
      (Parser.nameAndType ty' close constraint) := by
  have pair : ∀ (name : Option String) {x y : TypeExpr}, y.mapComments f = x.mapComments f →
      Prod.map id (TypeExpr.mapComments f) (name, y) =
        Prod.map id (TypeExpr.mapComments f) (name, x) := fun _ _ _ shows => Prod.ext rfl shows
  refine isAtIf agree (bind (orVariadic agree h h) fun _ _ shows => pure (pair none shows)) ?_
  refine askIf agree.showsNamedArray ?_ ?_
  · exact bind_id (ident agree) fun name => bind h fun _ _ shows => pure (pair (some name) shows)
  · refine bind (entryType agree h constraint) fun x y shows => ?_
    split
    · next name =>
      obtain rfl : y = .name name := TypeExpr.mapComments_eq_name.1 shows
      refine current agree fun t u same => ?_
      rw [same]
      refine ite (pure rfl) ?_
      exact bind (orVariadic agree h (entryType agree h constraint)) fun _ _ shows =>
        pure (pair (some name) shows)
    · next unnamed =>
      split
      · next name => exact absurd (TypeExpr.mapComments_eq_name.1 shows.symm) (unnamed name)
      · exact pure (pair none shows)

/-- Entries are followed one by one, with the comments behind them. -/
theorem entriesUntil {close : Lexeme} {entry entry' : Parser (Option String × TypeExpr)}
    (h : Tracks R (Prod.map id (TypeExpr.mapComments f)) entry entry') (n : Nat) :
    Tracks R (List.map (Entry.mapComments f)) (Parser.entriesUntil close entry n)
      (Parser.entriesUntil close entry' n) := by
  have made : ∀ {e e' : Option String × TypeExpr} {comment comment' : Option CommentGroup},
      Prod.map id (TypeExpr.mapComments f) e' = Prod.map id (TypeExpr.mapComments f) e →
      comment'.bind f = comment.bind f →
      Entry.mapComments f ⟨e'.1, e'.2, comment'⟩ = Entry.mapComments f ⟨e.1, e.2, comment⟩ := by
    intro e e' comment comment' shows told
    obtain ⟨name, type⟩ := Prod.ext_iff.1 shows
    rw [Entry.mapComments, Entry.mapComments, told, show e'.1 = e.1 from name,
      show e'.2.mapComments f = e.2.mapComments f from type]
  induction n with
  | zero => exact fail _ _
  | succ n ih =>
    refine isAtIf agree (pure rfl) (bind h fun _ _ shows => isAtIf agree ?_ ?_)
    · exact advance agree fun _ _ => bind (commentBehind agree) fun _ _ told =>
        bind (passSemis agree) fun _ _ _ => bind ih fun _ _ behind =>
          pure (map_cons_congr (made shows told) behind)
    · exact bind (commentBehind agree) fun _ _ told => bind (passSemis agree) fun _ _ _ =>
        pure (map_cons_congr (made shows told) rfl)

/-- A list of entries is followed; which names are grouped does not depend on comments. -/
theorem fieldListWith (h : Tracks R (TypeExpr.mapComments f) ty ty') (opening close : Lexeme)
    (constraint : Bool) :
    Tracks R (List.map (Field.mapComments f)) (Parser.fieldListWith ty opening close constraint)
      (Parser.fieldListWith ty' opening close constraint) := by
  refine expect agree fun _ _ => bind (passSemis agree) fun _ _ _ => ?_
  refine bind (bounded agree fun n => entriesUntil agree (nameAndType agree h close constraint) n)
    fun es es' shows => expect agree fun _ _ => ?_
  obtain ⟨fs, fs', first, second, same⟩ | ⟨cause, first, second⟩ :=
    fieldsOf_congr entriesShow_mapComments shows
  · rw [first, second]
    exact pure same
  · rw [first, second]
    exact fail _ _

theorem paramsWith (h : Tracks R (TypeExpr.mapComments f) ty ty') :
    Tracks R (List.map (Field.mapComments f)) (Parser.paramsWith ty) (Parser.paramsWith ty') :=
  fieldListWith agree h _ _ false

theorem resultsWith (h : Tracks R (TypeExpr.mapComments f) ty ty') :
    Tracks R (List.map (Field.mapComments f)) (Parser.resultsWith ty) (Parser.resultsWith ty') := by
  refine isAtIf agree (paramsWith agree h) (current agree fun t u same => ?_)
  rw [same]
  refine ite (bind h fun x y shows => ?_) (pure rfl)
  exact pure (map_cons_congr (mapComments_field shows rfl rfl) rfl)

theorem signatureWith (h : Tracks R (TypeExpr.mapComments f) ty ty') :
    Tracks R (TypeExpr.mapComments f) (Parser.signatureWith ty) (Parser.signatureWith ty') := by
  refine bind (paramsWith agree h) fun _ _ params => ?_
  refine bind (resultsWith agree h) fun _ _ results => pure ?_
  rw [TypeExpr.mapComments_func, TypeExpr.mapComments_func, params, results]

/-! ## Bodies -/

theorem fieldNames : Tracks R id Parser.fieldNames Parser.fieldNames := by
  refine askIf agree.showsFieldName ?_ (pure rfl)
  exact bind_id (ident agree) fun _ => bind_id (bounded agree (moreNames agree)) fun _ => pure rfl

theorem fieldTag : Tracks R id Parser.fieldTag Parser.fieldTag := by
  refine current agree fun t u same => ?_
  rw [same]
  exact ite (advance agree fun _ _ => pure rfl) (pure rfl)

/-- A field of a struct is followed with the remarks above and behind it. -/
theorem structFieldWith (h : Tracks R (TypeExpr.mapComments f) ty ty') :
    Tracks R (Field.mapComments f) (Parser.structFieldWith ty) (Parser.structFieldWith ty') := by
  refine bind (docHere agree) fun _ _ docs => bind_id (fieldNames agree) fun _ => ?_
  refine bind h fun _ _ types => bind_id (fieldTag agree) fun _ => ?_
  exact bind (commentBehind agree) fun _ _ comments => pure (mapComments_field types docs comments)

/-- A member of an interface is followed with the remarks above and behind it. -/
theorem interfaceMemberWith (h : Tracks R (TypeExpr.mapComments f) ty ty') :
    Tracks R (Field.mapComments f) (Parser.interfaceMemberWith ty)
      (Parser.interfaceMemberWith ty') := by
  refine bind (docHere agree) fun _ _ docs => askIf agree.showsMethod ?_ ?_
  · exact bind_id (ident agree) fun _ => bind (signatureWith agree h) fun _ _ types =>
      bind (commentBehind agree) fun _ _ comments => pure (mapComments_field types docs comments)
  · exact bind (constraintWith agree h) fun _ _ types => bind (commentBehind agree)
      fun _ _ comments => pure (mapComments_field types docs comments)

/-- A body is followed member by member. -/
theorem bodyOf {member member' : Parser Field} (h : Tracks R (Field.mapComments f) member member') :
    Tracks R (List.map (Field.mapComments f)) (Parser.bodyOf member) (Parser.bodyOf member') := by
  refine expect agree fun _ _ => ?_
  refine bind (bounded agree fun n => itemsUntil agree (statement agree h) n) fun _ _ fields => ?_
  exact expect agree fun _ _ => pure fields

theorem structTypeWith (h : Tracks R (TypeExpr.mapComments f) ty ty') :
    Tracks R (TypeExpr.mapComments f) (Parser.structTypeWith ty) (Parser.structTypeWith ty') := by
  refine expect agree fun _ _ => bind (bodyOf agree (structFieldWith agree h)) fun _ _ fields => pure ?_
  rw [TypeExpr.mapComments_struct, TypeExpr.mapComments_struct, fields]

theorem interfaceTypeWith (h : Tracks R (TypeExpr.mapComments f) ty ty') :
    Tracks R (TypeExpr.mapComments f) (Parser.interfaceTypeWith ty) (Parser.interfaceTypeWith ty') := by
  refine expect agree fun _ _ => ?_
  refine bind (bodyOf agree (interfaceMemberWith agree h)) fun _ _ methods => pure ?_
  rw [TypeExpr.mapComments_interface, TypeExpr.mapComments_interface, methods]

/-! ## Types -/

theorem typeNameWith (h : Tracks R (TypeExpr.mapComments f) ty ty') :
    Tracks R (TypeExpr.mapComments f) (Parser.typeNameWith ty) (Parser.typeNameWith ty') := by
  refine bind_id (ident agree) fun name => bind_id (qualifiedFrom agree name) fun base => ?_
  refine askIf agree.showsTypeArgs (advance agree fun _ _ => ?_) (pure rfl)
  refine bind (bounded agree fun n => commaItems agree h n) fun _ _ args => ?_
  refine expect agree fun _ _ => pure ?_
  rw [TypeExpr.mapComments_generic, TypeExpr.mapComments_generic, args]

theorem arrayWith (h : Tracks R (TypeExpr.mapComments f) ty ty') :
    Tracks R (TypeExpr.mapComments f) (Parser.arrayWith ty) (Parser.arrayWith ty') := by
  have element : ∀ size : Option TypeExpr, Tracks R (TypeExpr.mapComments f)
      (do let elt ← ty; Pure.pure (.array elt size))
      (do let elt ← ty'; Pure.pure (.array elt size)) :=
    fun size => bind h fun _ _ shows => pure (congrArg (TypeExpr.array · size) shows)
  refine isAtIf agree (advance agree fun _ _ => element _) ?_
  refine isAtIf agree (advance agree fun _ _ => expect agree fun _ _ => element _) ?_
  exact bind_id (length agree) fun _ => expect agree fun _ _ => element _

theorem mapWith (h : Tracks R (TypeExpr.mapComments f) ty ty') :
    Tracks R (TypeExpr.mapComments f) (Parser.mapWith ty) (Parser.mapWith ty') := by
  refine expect agree fun _ _ => bind h fun _ _ keys => expect agree fun _ _ => ?_
  refine bind h fun _ _ values => pure ?_
  rw [TypeExpr.mapComments, TypeExpr.mapComments, keys, values]

theorem channelWith (h : Tracks R (TypeExpr.mapComments f) ty ty') :
    Tracks R (TypeExpr.mapComments f) (Parser.channelWith ty) (Parser.channelWith ty') := by
  refine isAtIf agree (advance agree fun _ _ => ?_) ?_
  · exact bind h fun _ _ shows => pure (congrArg (TypeExpr.channel .send) shows)
  · exact bind h fun _ _ shows => pure (congrArg (TypeExpr.channel .both) shows)

/-- Each form of a type is followed, as the types inside of it are. -/
theorem typeWith (h : Tracks R (TypeExpr.mapComments f) ty ty') :
    Tracks R (TypeExpr.mapComments f) (Parser.typeWith ty) (Parser.typeWith ty') := by
  refine current agree fun t u same => ?_
  rw [same]
  split
  · exact typeNameWith agree h
  · exact advance agree fun _ _ => bind h fun _ _ shows => pure (congrArg TypeExpr.pointer shows)
  · exact advance agree fun _ _ => arrayWith agree h
  · exact advance agree fun _ _ => mapWith agree h
  · exact advance agree fun _ _ => channelWith agree h
  · exact advance agree fun _ _ => expect agree fun _ _ => bind h fun _ _ shows =>
      pure (congrArg (TypeExpr.channel .receive) shows)
  · exact advance agree fun _ _ => signatureWith agree h
  · exact structTypeWith agree h
  · exact interfaceTypeWith agree h
  · exact advance agree fun _ _ => bind h fun _ _ shows => expect agree fun _ _ =>
      pure (congrArg TypeExpr.paren shows)
  · exact fail _ _

/-- By induction on the levels. -/
theorem typeWithin (n : Nat) :
    Tracks R (TypeExpr.mapComments f) (Parser.typeWithin n) (Parser.typeWithin n) := by
  induction n with
  | zero => exact fail _ _
  | succ n ih => exact typeWith agree ih

/-- A type in a group is parsed to the type outside of it, up to where its comments are from. -/
theorem type : Tracks R (TypeExpr.mapComments f) Parser.type Parser.type :=
  bounded agree (typeWithin agree)

/-! ## Specifications -/

/-- Type parameters in a group are parsed as outside of it. -/
theorem typeParams :
    Tracks R (List.map (Field.mapComments f)) Parser.typeParams Parser.typeParams := by
  refine bind (fieldListWith agree (type agree) _ _ true) fun fields fields' shows => ?_
  have named : ∀ fields : List Field, (fields.any fun f => f.names.isEmpty) =
      ((fields.map (Field.mapComments f)).any fun f => f.names.isEmpty) := by
    intro fields
    rw [List.any_map]
    rfl
  rw [named fields, named fields', shows]
  exact ite (fail _ _) (pure shows)

/-- Specifications that are read at cursors that agree, with documentation that is not told apart. -/
theorem typeSpec {doc doc' : Option CommentGroup} (docs : doc'.bind f = doc.bind f) :
    Tracks R (TypeSpec.mapComments f) (Parser.typeSpec doc) (Parser.typeSpec doc') := by
  rw [typeSpec_eq, typeSpec_eq]
  refine bind_id (ident agree) fun name => ?_
  refine bind (askIf agree.showsTypeParams (typeParams agree) (pure rfl)) fun _ _ params => ?_
  refine bind_id (isAt agree _) fun isAlias => ?_
  refine bind_id (ite (advance agree fun _ _ => pure rfl) (pure rfl)) fun _ => ?_
  refine bind (type agree) fun _ _ types => bind (commentBehind agree) fun _ _ comments => pure ?_
  rw [TypeSpec.mapComments, TypeSpec.mapComments, docs, types, params, comments]

end Tracks

end Typings.Parser
