import Typings.Parser.Basic
import Typings.TypeExpr.Basic

/-!
# Parsing type expressions

One production for each form of a type. The productions are parameterised by the parser for the
types inside them, `ty`, and are tied together at the end: `typeWithin n` accepts types nested at
most `n` deep, and `type` allows as many levels as there are tokens ahead. Array lengths, which hold
no types, are tied in the same way.
-/

namespace Typings.Parser

/-! ## Array lengths -/

/-- An operator of arithmetic in an array length. -/
def isLengthOperator : Lexeme → Bool
  | .op .plus | .op .minus | .op .star | .op .slash | .op .percent | .op .shiftLeft
  | .op .shiftRight | .op .ampersand | .op .bar | .op .caret | .op .clear => true
  | _ => false

/-- A sign before an operand of an array length. -/
def isSign : Lexeme → Bool
  | .op .minus | .op .plus | .op .caret => true
  | _ => false

/-- A first operand with the operators and operands after it, grouped to the left. -/
def chain (isOperator : Lexeme → Bool) (operand : Parser TypeExpr) : Parser TypeExpr := do
  let first ← operand
  let more ← bounded (operandsAfter isOperator operand)
  pure (more.foldl (fun x (op, y) => .binary x op y) first)

/-- What a name that has been passed begins: itself, or the name of a package with a dot and a second
name behind it. -/
def qualifiedFrom (name : String) : Parser TypeExpr := do
  if ← isAt (.op .dot) then
    let _ ← advance
    let sel ← ident
    pure (.selector (.name name) sel)
  else pure (.name name)

/-- An operand of an array length: a literal, a possibly qualified name, a call of one, a length in
parentheses, or a sign and its operand. -/
def lengthOperandWith (operand : Parser TypeExpr) : Parser TypeExpr := do
  let t ← current
  match t.lexeme with
  | .literal kind text =>
    let _ ← advance
    pure (.literal kind text)
  | .ident name =>
    let _ ← advance
    let fn ← qualifiedFrom name
    if ← isAt (.op .leftParen) then
      let _ ← advance
      let args ← bounded (commaItems (.op .rightParen) (chain isLengthOperator operand))
      let _ ← expect (.op .rightParen)
      pure (.call fn args)
    else pure fn
  | .op .leftParen =>
    let _ ← advance
    let inner ← chain isLengthOperator operand
    let _ ← expect (.op .rightParen)
    pure (.paren inner)
  | lexeme =>
    if isSign lexeme then
      let _ ← advance
      let x ← operand
      pure (.unary lexeme.text x)
    else fail (.expected .length)

/-- Operands of array lengths, nested at most so many levels deep. -/
def lengthOperandWithin : Nat → Parser TypeExpr
  | 0 => fail .exhausted
  | levels + 1 => lengthOperandWith (lengthOperandWithin levels)

/-- An array length. -/
def length : Parser TypeExpr := chain isLengthOperator (bounded lengthOperandWithin)

/-! ## Constraints -/

/-- A term of a constraint: a type, or `~` and a type. -/
def constraintTerm (ty : Parser TypeExpr) : Parser TypeExpr := do
  if ← isAt (.op .tilde) then
    let _ ← advance
    let x ← ty
    pure (.unary "~" x)
  else ty

/-- Terms with bars between them. -/
def constraintWith (ty : Parser TypeExpr) : Parser TypeExpr :=
  chain (· = .op .bar) (constraintTerm ty)

/-! ## Lists of fields -/

/-- An entry of a field list: a type that may have a name before it. -/
structure Entry where
  name : Option String
  type : TypeExpr
  comment : Option CommentGroup

/-- The type of an entry; in a type-parameter list it is a constraint. -/
def entryType (ty : Parser TypeExpr) (constraint : Bool) : Parser TypeExpr :=
  if constraint then constraintWith ty else ty

/-- A type that takes any number of arguments, if the dots for it come next; else as told. -/
def orVariadic (ty otherwise : Parser TypeExpr) : Parser TypeExpr := do
  if ← isAt (.op .ellipsis) then
    let _ ← advance
    let elt ← ty
    pure (.variadic elt)
  else otherwise

/-- An entry's name and type. An identifier is taken for a type first, and for a name if neither a
comma nor the end of the list follows it. -/
def nameAndType (ty : Parser TypeExpr) (close : Lexeme) (constraint : Bool) :
    Parser (Option String × TypeExpr) := do
  if ← isAt (.op .ellipsis) then
    let type ← orVariadic ty ty
    pure (none, type)
  else if ← ask Cursor.showsNamedArray then
    let name ← ident
    let type ← ty
    pure (some name, type)
  else
    let type ← entryType ty constraint
    match type with
    | .name name =>
      let next ← current
      if next.lexeme = .op .comma || next.lexeme = close then pure (none, type)
      else
        let type ← orVariadic ty (entryType ty constraint)
        pure (some name, type)
    | _ => pure (none, type)

/-- Entries up to the closing lexeme, which is not passed. A comment behind an entry, or behind its
comma, belongs to the entry. -/
def entriesUntil (close : Lexeme) (entry : Parser (Option String × TypeExpr)) :
    Nat → Parser (List Entry)
  | 0 => fail .exhausted
  | rounds + 1 => do
    if ← isAt close then pure []
    else
      let (name, type) ← entry
      if ← isAt (.op .comma) then
        let _ ← advance
        let comment ← commentBehind
        passSemis
        let entries ← entriesUntil close entry rounds
        pure (⟨name, type, comment⟩ :: entries)
      else
        let comment ← commentBehind
        passSemis
        pure [⟨name, type, comment⟩]

/-- The fields of a list in which some entry is named: bare identifiers before a named entry are
further names of it. -/
def groupNames (pending : List String) : List Entry → Except ParseCause (List Field)
  | [] => if pending.isEmpty then .ok [] else .error .missingType
  | e :: es =>
    match e.name, e.type with
    | some name, type => do
      let fields ← groupNames [] es
      .ok ({ names := pending ++ [name], type := type, comment := e.comment } :: fields)
    | none, .name name => groupNames (pending ++ [name]) es
    | none, _ => .error .mixedNames

/-- How named entries become fields: one with a name ends a group, one without is a further name of
the group that follows, and no name is left at the end. -/
inductive GroupsTo : List String → List Entry → List Field → Prop where
  | nil : GroupsTo [] [] []
  | field {pending : List String} {name : String} {type : TypeExpr} {comment : Option CommentGroup}
      {es : List Entry} {fields : List Field} : GroupsTo [] es fields →
        GroupsTo pending (⟨some name, type, comment⟩ :: es)
          ({ names := pending ++ [name], type := type, comment := comment } :: fields)
  | name {pending : List String} {name : String} {comment : Option CommentGroup}
      {es : List Entry} {fields : List Field} : GroupsTo (pending ++ [name]) es fields →
        GroupsTo pending (⟨none, .name name, comment⟩ :: es) fields

/-- The cases of a grouping, once for all that is shown of fields. -/
theorem groupsTo_of_groupNames {pending : List String} {es : List Entry} {fields : List Field}
    (h : groupNames pending es = .ok fields) : GroupsTo pending es fields := by
  induction es generalizing pending fields with
  | nil =>
    rw [groupNames] at h
    split at h
    · next none =>
      cases h
      rw [List.isEmpty_iff.1 none]
      exact .nil
    · cases h
  | cons e es ih =>
    obtain ⟨name, type, comment⟩ := e
    cases name with
    | some name =>
      rw [groupNames] at h
      cases behind : groupNames [] es with
      | error cause =>
        rw [behind] at h
        cases h
      | ok fields =>
        rw [behind] at h
        cases h
        exact .field (ih behind)
    | none =>
      cases type with
      | name name => exact .name (ih h)
      | _ => cases h

/-- The fields of a list: either all of its entries are named, or none is. -/
def fieldsOf (entries : List Entry) : Except ParseCause (List Field) :=
  if entries.any fun e => e.name.isSome then groupNames [] entries
  else .ok (entries.map fun e => { names := [], type := e.type, comment := e.comment })

/-- A list of fields between two delimiters. -/
def fieldListWith (ty : Parser TypeExpr) (opening close : Lexeme) (constraint : Bool) :
    Parser (List Field) := do
  let _ ← expect opening
  passSemis
  let entries ← bounded (entriesUntil close (nameAndType ty close constraint))
  let _ ← expect close
  match fieldsOf entries with
  | .ok fields => pure fields
  | .error cause => fail cause

/-- A parameter list. -/
def paramsWith (ty : Parser TypeExpr) : Parser (List Field) :=
  fieldListWith ty (.op .leftParen) (.op .rightParen) false

/-- The results of a function: a list in parentheses, a single type, or nothing. -/
def resultsWith (ty : Parser TypeExpr) : Parser (List Field) := do
  if ← isAt (.op .leftParen) then paramsWith ty
  else if (← current).lexeme.startsType then
    let type ← ty
    pure [{ names := [], type := type }]
  else pure []

/-- Parameters and results. -/
def signatureWith (ty : Parser TypeExpr) : Parser TypeExpr := do
  let params ← paramsWith ty
  let results ← resultsWith ty
  pure (.func params results [])

/-! ## Bodies -/

/-- Further names of a field, each after a comma. -/
def moreNames : Nat → Parser (List String)
  | 0 => fail .exhausted
  | rounds + 1 => do
    if ← isAt (.op .comma) then
      let _ ← advance
      let name ← ident
      let names ← moreNames rounds
      pure (name :: names)
    else pure []

/-- The names of a struct field; an embedded field has none. -/
def fieldNames : Parser (List String) := do
  if ← ask Cursor.showsFieldName then
    let name ← ident
    let names ← bounded moreNames
    pure (name :: names)
  else pure []

/-- The tag of a struct field, if it has one. -/
def fieldTag : Parser (Option String) := do
  let t ← current
  if t.lexeme.isString then
    let _ ← advance
    pure (some t.lexeme.text)
  else pure none

/-- A struct field with the comments above and behind it. -/
def structFieldWith (ty : Parser TypeExpr) : Parser Field := do
  let doc ← docHere
  let names ← fieldNames
  let type ← ty
  let tag ← fieldTag
  let comment ← commentBehind
  pure { names := names, type := type, doc := doc, comment := comment, tag := tag }

/-- An interface member with the comments above and behind it: a method, or an embedded element. -/
def interfaceMemberWith (ty : Parser TypeExpr) : Parser Field := do
  let doc ← docHere
  if ← ask Cursor.showsMethod then
    let name ← ident
    let type ← signatureWith ty
    let comment ← commentBehind
    pure { names := [name], type := type, doc := doc, comment := comment }
  else
    let type ← constraintWith ty
    let comment ← commentBehind
    pure { names := [], type := type, doc := doc, comment := comment }

/-- Members in braces, each a statement. -/
def bodyOf (member : Parser Field) : Parser (List Field) := do
  let _ ← expect (.op .leftBrace)
  let statement := do
    let field ← member
    endStatement
    pure field
  let fields ← bounded (itemsUntil (.op .rightBrace) statement)
  let _ ← expect (.op .rightBrace)
  pure fields

/-- A struct type. -/
def structTypeWith (ty : Parser TypeExpr) : Parser TypeExpr := do
  let _ ← expect (.keyword .structKw)
  let fields ← bodyOf (structFieldWith ty)
  pure (.struct fields)

/-- An interface type. -/
def interfaceTypeWith (ty : Parser TypeExpr) : Parser TypeExpr := do
  let _ ← expect (.keyword .interfaceKw)
  let methods ← bodyOf (interfaceMemberWith ty)
  pure (.interface methods)

/-! ## Types -/

/-- A possibly qualified name, with type arguments if it has some. -/
def typeNameWith (ty : Parser TypeExpr) : Parser TypeExpr := do
  let name ← ident
  let base ← qualifiedFrom name
  if ← ask Cursor.showsTypeArgs then
    let _ ← advance
    let args ← bounded (commaItems (.op .rightBracket) ty)
    let _ ← expect (.op .rightBracket)
    pure (.generic base args)
  else pure base

/-- What follows the opening bracket of an array type. -/
def arrayWith (ty : Parser TypeExpr) : Parser TypeExpr := do
  if ← isAt (.op .rightBracket) then
    let _ ← advance
    let elt ← ty
    pure (.array elt none)
  else if ← isAt (.op .ellipsis) then
    let _ ← advance
    let _ ← expect (.op .rightBracket)
    let elt ← ty
    pure (.array elt (some (.counted "...")))
  else
    let size ← length
    let _ ← expect (.op .rightBracket)
    let elt ← ty
    pure (.array elt (some size))

/-- What follows the word `map`. -/
def mapWith (ty : Parser TypeExpr) : Parser TypeExpr := do
  let _ ← expect (.op .leftBracket)
  let key ← ty
  let _ ← expect (.op .rightBracket)
  let value ← ty
  pure (.map key value)

/-- What follows the word `chan`. -/
def channelWith (ty : Parser TypeExpr) : Parser TypeExpr := do
  if ← isAt (.op .arrow) then
    let _ ← advance
    let value ← ty
    pure (.channel .send value)
  else
    let value ← ty
    pure (.channel .both value)

/-- A type whose inner types are parsed by `ty`. -/
def typeWith (ty : Parser TypeExpr) : Parser TypeExpr := do
  let t ← current
  match t.lexeme with
  | .ident _ => typeNameWith ty
  | .op .star =>
    let _ ← advance
    let x ← ty
    pure (.pointer x)
  | .op .leftBracket =>
    let _ ← advance
    arrayWith ty
  | .keyword .mapKw =>
    let _ ← advance
    mapWith ty
  | .keyword .chanKw =>
    let _ ← advance
    channelWith ty
  | .op .arrow =>
    let _ ← advance
    let _ ← expect (.keyword .chanKw)
    let value ← ty
    pure (.channel .receive value)
  | .keyword .funcKw =>
    let _ ← advance
    signatureWith ty
  | .keyword .structKw => structTypeWith ty
  | .keyword .interfaceKw => interfaceTypeWith ty
  | .op .leftParen =>
    let _ ← advance
    let inner ← ty
    let _ ← expect (.op .rightParen)
    pure (.paren inner)
  | _ => fail (.expected .type)

/-- Types nested at most so many levels deep. -/
def typeWithin : Nat → Parser TypeExpr
  | 0 => fail .exhausted
  | levels + 1 => typeWith (typeWithin levels)

/-- A type. -/
def type : Parser TypeExpr := bounded typeWithin

/-- A constraint: terms with bars between them. -/
def constraint : Parser TypeExpr := constraintWith type

end Typings.Parser

namespace Typings

/-- Why a source text is refused: it has a place where no item can stand, or its tokens do not form
what was asked for. -/
inductive SourceError where
  | scan (error : ScanError)
  | parse (error : ParseError)
  deriving DecidableEq, Repr

/-- The error in words, with its place. -/
def SourceError.message : SourceError → String
  | .scan e => e.message
  | .parse e => e.message

/-- Running a parser over a whole source text. -/
def Parser.run {α : Type} (p : Parser α) (source : String) : Except SourceError α :=
  match Layout.ofSource source with
  | .error e => .error (.scan e)
  | .ok layout =>
    match p (.ofLayout layout) with
    | .error e => .error (.parse e)
    | .ok (x, _) => .ok x

/-- Nothing but semicolons follows. -/
def Parser.expectEnd : Parser Unit := do
  passSemis
  if ← isAt .eof then pure () else fail .trailingInput

/-- The type, or constraint, that a source text consists of. -/
def TypeExpr.parse (source : String) : Except SourceError TypeExpr :=
  Parser.run (do
    let type ← Parser.constraint
    Parser.expectEnd
    pure type) source

end Typings
