import Typings.Proofs.Comments.Bare
import Typings.Proofs.Joined.Files
import Typings.Proofs.Spelling.RoundTrip
import Typings.Proofs.Spelling.TypeParams

/-!
# Arrays as fields and as declarations

A struct field `x [L]T` and the declaration `type x [L]T` are written alike. Where a cursor reads the
field, it reads the declaration with the same type unless the bracket is taken for that of a
type-parameter list (`Parser.typeSpec_of_structField`, `Parser.typeParams_of_structField`). That is told
by the two lexemes behind the bracket. A name and an operator of lengths belong to a length, but five
of these operators are taken for the start of a constraint. So exactly the lengths that begin with a
name and one of the five cannot be declared (`File.parse_arrayDecl_iff`).
-/

namespace Typings

open Typings.Parser

/-- The length begins with a name and an operator that is taken for the start of a constraint. -/
def TypeExpr.opensTypeParam : TypeExpr → Bool
  | .binary x op _ =>
    if x.name?.isSome then ["*", "&", "|", "^", "&^"].contains op else x.opensTypeParam
  | _ => false

theorem TypeExpr.opensTypeParam_binary {x y : TypeExpr} {op : String} (compound : x.name? = none) :
    (TypeExpr.binary x op y).opensTypeParam = x.opensTypeParam := by
  rw [opensTypeParam, compound]
  rfl

theorem TypeExpr.opensTypeParam_bare (x : TypeExpr) :
    x.bare.opensTypeParam = x.opensTypeParam := by
  fun_induction TypeExpr.opensTypeParam x with
  | case1 x op y named =>
    show (TypeExpr.binary x.bare op y.bare).opensTypeParam = _
    rw [opensTypeParam, name?_bare, if_pos named]
  | case2 x op y unnamed ih =>
    show (TypeExpr.binary x.bare op y.bare).opensTypeParam = _
    rw [opensTypeParam, name?_bare, if_neg unnamed, ih]
  | case3 x other =>
    cases x with
    | binary x op y => exact absurd rfl (other x op y)
    | array elt length => cases length <;> rfl
    | composite type elts => cases type <;> rfl
    | _ => rfl

namespace Parser

variable {c c' : Cursor} {x size elt : TypeExpr} {doc : Option CommentGroup}

/-! ## Behind the bracket -/

/-- A type parameter is seen at the cursor: a name, and behind it no lexeme that goes on with a
length. -/
def showsTypeParam (c : Cursor) : Bool :=
  c.current.lexeme.isIdent && !continuesLength c.advance.current.lexeme

theorem showsTypeParams_eq (c : Cursor) :
    showsTypeParams c = (c.current.lexeme = .op .leftBracket && showsTypeParam c.advance) := by
  have second : c.advance.advance.current = c.peek 2 := by
    rw [Cursor.current_advance, Cursor.peek, Cursor.peek, Cursor.advance, Cursor.pass,
      List.getD_eq_getElem?_getD, List.getD_eq_getElem?_getD, List.getElem?_drop]
  rw [showsTypeParams, showsTypeParam, second, Cursor.current_advance, Bool.and_assoc]

/-- What is chained to an operand does not change how it begins. -/
theorem opensTypeParam_foldl (compound : x.name? = none) (more : List (String × TypeExpr)) :
    (more.foldl (fun x (op, y) => .binary x op y) x).opensTypeParam = x.opensTypeParam := by
  induction more generalizing x with
  | nil => rfl
  | cons m more ih => rw [List.foldl_cons, ih rfl, TypeExpr.opensTypeParam_binary compound]

/-- The first operand of a length is a name that has been passed, or no type parameter is seen. -/
theorem lengthOperandWith_first {operand : Parser TypeExpr}
    (run : lengthOperandWith operand c = .ok (x, c')) :
    (∃ name, x = .name name ∧ c.current.lexeme.isIdent = true ∧ c' = c.advance) ∨
      x.name? = none ∧ x.opensTypeParam = false ∧ showsTypeParam c = false := by
  rw [lengthOperandWith, current_bind] at run
  rw [showsTypeParam]
  generalize c.current.lexeme = w at run
  split at run
  · rw [advance_bind] at run
    obtain ⟨rfl, -⟩ := pure_eq_ok.1 run
    exact .inr ⟨rfl, rfl, rfl⟩
  · rw [advance_bind] at run
    obtain ⟨fn, c₁, qualified, run⟩ := bind_eq_ok.1 run
    rw [isAt_bind] at run
    rw [qualifiedFrom, isAt_bind] at qualified
    split at qualified
    · next dot =>
      -- a dot goes on with a length, so what is behind the second name does not matter
      have shut : ∀ b, (b && !continuesLength c.advance.current.lexeme) = false := by
        rw [of_decide_eq_true dot]
        exact Bool.and_false
      rw [advance_bind] at qualified
      obtain ⟨sel, c₂, -, last⟩ := bind_eq_ok.1 qualified
      obtain ⟨rfl, -⟩ := pure_eq_ok.1 last
      split at run
      · rw [advance_bind] at run
        obtain ⟨args, c₃, -, run⟩ := bind_eq_ok.1 run
        obtain ⟨_, c₄, -, last⟩ := bind_eq_ok.1 run
        obtain ⟨rfl, -⟩ := pure_eq_ok.1 last
        exact .inr ⟨rfl, rfl, shut _⟩
      · obtain ⟨rfl, -⟩ := pure_eq_ok.1 run
        exact .inr ⟨rfl, rfl, shut _⟩
    · obtain ⟨rfl, rfl⟩ := pure_eq_ok.1 qualified
      split at run
      · next paren =>
        rw [advance_bind] at run
        obtain ⟨args, c₂, -, run⟩ := bind_eq_ok.1 run
        obtain ⟨_, c₃, -, last⟩ := bind_eq_ok.1 run
        obtain ⟨rfl, -⟩ := pure_eq_ok.1 last
        rw [of_decide_eq_true paren]
        exact .inr ⟨rfl, rfl, rfl⟩
      · obtain ⟨rfl, rfl⟩ := pure_eq_ok.1 run
        exact .inl ⟨_, rfl, rfl, rfl⟩
  · rw [advance_bind] at run
    obtain ⟨inner, c₁, -, run⟩ := bind_eq_ok.1 run
    obtain ⟨_, c₂, -, last⟩ := bind_eq_ok.1 run
    obtain ⟨rfl, -⟩ := pure_eq_ok.1 last
    exact .inr ⟨rfl, rfl, rfl⟩
  · split at run
    · next sign =>
      obtain ⟨op, rfl, -⟩ := isSign_iff.1 sign
      rw [advance_bind] at run
      obtain ⟨y, c₁, -, last⟩ := bind_eq_ok.1 run
      obtain ⟨rfl, -⟩ := pure_eq_ok.1 last
      exact .inr ⟨rfl, rfl, rfl⟩
    · exact absurd run fail_ne_ok

/-- Of the operators of lengths, the five are those that are not taken for going on with one. -/
theorem continuesLength_eq {w : Lexeme} (operator : isLengthOperator w = true) :
    ["*", "&", "|", "^", "&^"].contains w.text = !continuesLength w := by
  cases w with
  | op op => cases op <;> first | rfl | cases operator
  | _ => cases operator

/-- How a length begins is seen where it stands, if the closing bracket is behind it. -/
theorem opensTypeParam_of_length (run : length c = .ok (size, c'))
    (closes : c'.current.lexeme = .op .rightBracket) : size.opensTypeParam = showsTypeParam c := by
  obtain ⟨first, c₁, head, run⟩ := bind_eq_ok.1 run
  rw [bounded_bind] at run
  obtain ⟨more, c₂, others, last⟩ := bind_eq_ok.1 run
  obtain ⟨rfl, rfl⟩ := pure_eq_ok.1 last
  rcases lengthOperandWith_first head with ⟨name, rfl, ident, rfl⟩ | ⟨compound, shut, unseen⟩
  · rw [operandsAfter, current_bind] at others
    rw [showsTypeParam, ident, Bool.true_and]
    split at others
    · next operator =>
      rw [advance_bind] at others
      obtain ⟨y, c₃, -, others⟩ := bind_eq_ok.1 others
      obtain ⟨ys, c₄, -, last⟩ := bind_eq_ok.1 others
      obtain ⟨rfl, -⟩ := pure_eq_ok.1 last
      rw [List.foldl_cons, opensTypeParam_foldl rfl]
      exact continuesLength_eq operator
    · obtain ⟨rfl, rfl⟩ := pure_eq_ok.1 others
      rw [closes]
      rfl
  · rw [opensTypeParam_foldl compound, shut, unseen]

/-! ## Arrays -/

/-- Whatever the parser gives is as said. -/
def Gives {α : Type} (post : α → Prop) (p : Parser α) : Prop :=
  ∀ (c c' : Cursor) (x : α), p c = .ok (x, c') → post x

namespace Gives

variable {α β : Type} {p q : Parser α} {f : α → Parser β} {post : α → Prop} {post' : β → Prop}

theorem pure {x : α} (h : post x) : Gives post (Pure.pure x) := by
  intro c c' y run
  obtain ⟨rfl, -⟩ := pure_eq_ok.1 run
  exact h

theorem bind (h : Gives post p) (k : ∀ x, post x → Gives post' (f x)) : Gives post' (p >>= f) := by
  intro c c' y run
  obtain ⟨x, c₁, first, rest⟩ := bind_eq_ok.1 run
  exact k x (h c c₁ x first) c₁ c' y rest

/-- What goes before does not matter. -/
theorem after (k : ∀ x, Gives post' (f x)) : Gives post' (p >>= f) := by
  have any : Gives (fun _ => True) p := fun _ _ _ _ => trivial
  exact any.bind fun x _ => k x

/-- A look that decides. -/
theorem ifAsk {look : Cursor → Bool} (h : Gives post p) (k : Gives post q) :
    Gives post (do if ← Parser.ask look then p else q) := by
  refine after fun shows => ?_
  cases shows with
  | true => exact h
  | false => exact k

end Gives

/-- A name, with or without arguments, is no array type. -/
theorem typeNameWith_gives (ty : Parser TypeExpr) : Gives (·.isArray = false) (typeNameWith ty) := by
  have qualified : ∀ name, Gives (·.isArray = false) (qualifiedFrom name) := fun name =>
    .ifAsk (.after fun _ => .after fun sel => .pure rfl) (.pure rfl)
  refine .after fun name => (qualified name).bind fun base other => ?_
  exact .ifAsk (.after fun _ => .after fun args => .after fun _ => .pure rfl) (.pure other)

/-- Only a bracket begins an array type. -/
theorem arrayWith_of_typeWith {ty : Parser TypeExpr} {size : Option TypeExpr}
    (run : typeWith ty c = .ok (.array elt size, c')) :
    c.current.lexeme = .op .leftBracket ∧ arrayWith ty c.advance = .ok (.array elt size, c') := by
  have elsewhere : ∀ {p : Parser TypeExpr}, Gives (·.isArray = false) p →
      p c ≠ .ok (.array elt size, c') := fun other run => Bool.noConfusion (other c c' _ run)
  rw [typeWith, current_bind] at run
  generalize c.current.lexeme = w at run
  split at run
  · exact absurd run (elsewhere (typeNameWith_gives ty))
  · exact absurd run (elsewhere (.after fun _ => .after fun x => .pure rfl))
  · rw [advance_bind] at run
    exact ⟨rfl, run⟩
  · refine absurd run (elsewhere (.after fun _ => .after fun _ => .after fun key => ?_))
    exact .after fun _ => .after fun value => .pure rfl
  · refine absurd run (elsewhere (.after fun _ => .ifAsk (.after fun _ => ?_) ?_))
    · exact .after fun value => .pure rfl
    · exact .after fun value => .pure rfl
  · exact absurd run (elsewhere (.after fun _ => .after fun _ => .after fun value => .pure rfl))
  · exact absurd run
      (elsewhere (.after fun _ => .after fun params => .after fun results => .pure rfl))
  · exact absurd run (elsewhere (.after fun _ => .after fun fields => .pure rfl))
  · exact absurd run (elsewhere (.after fun _ => .after fun methods => .pure rfl))
  · exact absurd run (elsewhere (.after fun _ => .after fun inner => .after fun _ => .pure rfl))
  · exact absurd run fail_ne_ok

/-- An array type of a stated length stands at a bracket, behind which its length is seen. -/
theorem showsTypeParam_of_array (run : type c = .ok (.array elt (some size), c')) :
    c.current.lexeme = .op .leftBracket ∧ showsTypeParam c.advance = size.opensTypeParam := by
  change typeWith (typeWithin c.rest.length) c = _ at run
  obtain ⟨bracket, run⟩ := arrayWith_of_typeWith run
  refine ⟨bracket, ?_⟩
  rw [arrayWith, isAt_bind] at run
  split at run
  · rw [advance_bind] at run
    obtain ⟨elt, c₁, -, last⟩ := bind_eq_ok.1 run
    cases (pure_eq_ok.1 last).1
  rw [isAt_bind] at run
  split at run
  · next dots =>
    rw [advance_bind] at run
    obtain ⟨_, c₁, -, run⟩ := bind_eq_ok.1 run
    obtain ⟨elt, c₂, -, last⟩ := bind_eq_ok.1 run
    cases (pure_eq_ok.1 last).1
    rw [showsTypeParam, of_decide_eq_true dots]
    rfl
  · obtain ⟨size, c₁, sized, run⟩ := bind_eq_ok.1 run
    obtain ⟨_, c₂, closing, run⟩ := bind_eq_ok.1 run
    obtain ⟨elt, c₃, -, last⟩ := bind_eq_ok.1 run
    cases (pure_eq_ok.1 last).1
    exact (opensTypeParam_of_length sized (current_of_expect closing).1).symm

/-! ## Fields and specifications -/

section Fields

variable {field : Field} {name : String}

/-- What a field with one name and no tag consists of. -/
theorem structField_parts (run : structFieldWith type c = .ok (field, c')) (named : field.names = [name])
    (plain : field.tag = none) :
    ∃ c₁ c₂, ident c = .ok (name, c₁) ∧ type c₁ = .ok (field.type, c₂) ∧
      field.comment = c₂.commentBehind ∧ c' = c₂.dropCommentBehind := by
  rw [structFieldWith, docHere_bind] at run
  obtain ⟨names, c₁, listed, run⟩ := bind_eq_ok.1 run
  obtain ⟨x, c₂, typed, run⟩ := bind_eq_ok.1 run
  obtain ⟨tag, c₃, tagged, run⟩ := bind_eq_ok.1 run
  rw [commentBehind_bind] at run
  obtain ⟨rfl, rfl⟩ := pure_eq_ok.1 run
  change names = [name] at named
  change tag = none at plain
  subst named plain
  have untagged : c₂ = c₃ := by
    rw [fieldTag, current_bind] at tagged
    split at tagged
    · rw [advance_bind] at tagged
      cases (pure_eq_ok.1 tagged).1
    · exact (pure_eq_ok.1 tagged).2
  subst untagged
  rw [fieldNames, ask_bind] at listed
  split at listed
  · obtain ⟨_, c₄, first, others⟩ := bind_eq_ok.1 listed
    rw [bounded_bind] at others
    obtain ⟨names, c₅, more, last⟩ := bind_eq_ok.1 others
    obtain ⟨same, rfl⟩ := pure_eq_ok.1 last
    cases same
    have alone : c₄ = c₅ := by
      rw [moreNames, isAt_bind] at more
      split at more
      · rw [advance_bind] at more
        obtain ⟨_, c₆, -, more⟩ := bind_eq_ok.1 more
        obtain ⟨_, c₇, -, last⟩ := bind_eq_ok.1 more
        cases (pure_eq_ok.1 last).1
      · exact (pure_eq_ok.1 more).2
    subst alone
    exact ⟨c₄, c₂, first, typed, rfl, rfl⟩
  · cases (pure_eq_ok.1 listed).1

/-- Where a field of an array type stands, a specification is read as the same, if its length does not
begin like a type parameter. -/
theorem typeSpec_of_structField (doc : Option CommentGroup)
    (run : structFieldWith type c = .ok (field, c')) (named : field.names = [name])
    (array : field.type = .array elt (some size)) (plain : field.tag = none)
    (shut : size.opensTypeParam = false) :
    typeSpec doc c =
      .ok ({ name := name, type := field.type, doc := doc, comment := field.comment }, c') := by
  obtain ⟨c₁, c₂, first, typed, comment, rfl⟩ := structField_parts run named plain
  obtain ⟨bracket, shows⟩ := showsTypeParam_of_array (array ▸ typed)
  have unseen : showsTypeParams c₁ = false := by
    rw [showsTypeParams_eq, shows, shut, Bool.and_false]
  have noParams : Parser.optional showsTypeParams typeParams [] c₁ = .ok ([], c₁) := by
    rw [Parser.optional, ask_bind, unseen]
    rfl
  have noAlias : decide (c₁.current.lexeme = .op .assign) = false := by
    rw [bracket]
    rfl
  rw [typeSpec_eq, bind_of_ok first, bind_of_ok noParams, isAt_bind, noAlias,
    if_neg Bool.false_ne_true, pure_bind, bind_of_ok typed, commentBehind_bind, comment]
  rfl

theorem ne_nil_of_groupsTo {pending : List String} {es : List Entry} {fields : List Field}
    (grouped : GroupsTo pending es fields) (some : pending ≠ [] ∨ es ≠ []) : fields ≠ [] := by
  induction grouped with
  | nil => simp at some
  | field => exact List.cons_ne_nil _ _
  | name _ ih => exact ih (.inl (List.append_ne_nil_of_right_ne_nil _ (List.cons_ne_nil _ _)))

theorem fieldsOf_ne_nil {es : List Entry} {fields : List Field} (grouped : fieldsOf es = .ok fields)
    (some : es ≠ []) : fields ≠ [] := by
  unfold fieldsOf at grouped
  split at grouped
  · exact ne_nil_of_groupsTo (groupsTo_of_groupNames grouped) (.inr some)
  · cases grouped
    exact fun none => some (List.map_eq_nil_iff.1 none)

/-- There are entries unless the closing lexeme comes at once. -/
theorem entriesUntil_ne_nil {close : Lexeme} {entry : Parser (Option String × TypeExpr)} {n : Nat}
    {es : List Entry} (run : entriesUntil close entry n c = .ok (es, c'))
    (elsewhere : c.current.lexeme ≠ close) : es ≠ [] := by
  cases n with
  | zero => exact absurd run fail_ne_ok
  | succ n =>
    rw [entriesUntil, isAt_bind, decide_eq_false elsewhere] at run
    obtain ⟨⟨name, type⟩, c₁, -, run⟩ := bind_eq_ok.1 run
    dsimp only at run
    rw [isAt_bind] at run
    split at run
    · rw [advance_bind, commentBehind_bind, passSemis_bind] at run
      obtain ⟨others, c₂, -, last⟩ := bind_eq_ok.1 run
      obtain ⟨rfl, -⟩ := pure_eq_ok.1 last
      exact List.cons_ne_nil _ _
    · rw [commentBehind_bind, passSemis_bind] at run
      obtain ⟨rfl, -⟩ := pure_eq_ok.1 run
      exact List.cons_ne_nil _ _

/-- A list of type parameters with a name behind its bracket is not empty. -/
theorem typeParams_ne_nil {params : List Field} (run : typeParams c = .ok (params, c'))
    (shown : showsTypeParam c.advance = true) : params ≠ [] := by
  obtain ⟨fields, c₁, run, last⟩ := bind_eq_ok.1 run
  obtain ⟨_, c₂, opening, run⟩ := bind_eq_ok.1 run
  obtain ⟨-, rfl⟩ := current_of_expect opening
  have ident : c.advance.current.lexeme.isIdent = true := (Bool.and_eq_true_iff.1 shown).1
  have noSemi : c.advance.current.lexeme ≠ .op .semicolon := ne_of_begins ident rfl
  rw [passSemis_bind, passSemis_of_current noSemi, bounded_bind] at run
  obtain ⟨es, c₃, entries, run⟩ := bind_eq_ok.1 run
  obtain ⟨_, c₄, -, run⟩ := bind_eq_ok.1 run
  have some : es ≠ [] := entriesUntil_ne_nil entries (ne_of_begins ident rfl)
  cases grouped : fieldsOf es with
  | error cause =>
    rw [grouped] at run
    exact absurd run fail_ne_ok
  | ok fields' =>
    rw [grouped] at run
    obtain ⟨rfl, -⟩ := pure_eq_ok.1 run
    split at last
    · exact absurd last fail_ne_ok
    · obtain ⟨rfl, -⟩ := pure_eq_ok.1 last
      exact fieldsOf_ne_nil grouped some

/-- Where a field of an array type stands, a specification that is read has type parameters, if the
length begins like one. -/
theorem typeParams_of_structField {spec : TypeSpec} {d : Cursor}
    (run : structFieldWith type c = .ok (field, c')) (named : field.names = [name])
    (array : field.type = .array elt (some size)) (plain : field.tag = none)
    (opens : size.opensTypeParam = true) (read : typeSpec doc c = .ok (spec, d)) :
    spec.typeParams ≠ [] := by
  obtain ⟨c₁, c₂, first, typed, -, -⟩ := structField_parts run named plain
  obtain ⟨bracket, shows⟩ := showsTypeParam_of_array (array ▸ typed)
  have seen : showsTypeParams c₁ = true := by
    rw [showsTypeParams_eq, bracket, shows, opens]
    rfl
  rw [typeSpec_eq, bind_of_ok first, Parser.optional] at read
  obtain ⟨params, c₃, listed, read⟩ := bind_eq_ok.1 read
  rw [ask_bind, if_pos seen] at listed
  rw [isAt_bind] at read
  obtain ⟨_, c₄, -, read⟩ := bind_eq_ok.1 read
  obtain ⟨x, c₅, -, read⟩ := bind_eq_ok.1 read
  rw [commentBehind_bind] at read
  obtain ⟨rfl, -⟩ := pure_eq_ok.1 read
  exact typeParams_ne_nil listed (shows.trans opens)

end Fields

/-! ## Reading both -/

section Reading

variable {name : String} {us ws rest : List Lexeme} {fields : List Field}

/-- A name and a type, and nothing else. -/
theorem structFieldWith_reads_alone (name : String) {ty : Parser TypeExpr}
    (types : ty.ReadsTypes ws.length) (spells : Spells (.expr .type x) ws) (ends : EndsType rest)
    (string : (rest.headD .eof).isString = false) :
    (structFieldWith ty).Reads (.ident name :: (ws ++ rest)) { names := [name], type := x.bare }
      rest := by
  have shows : Typings.showsFieldName (spellNames [name] ++ (ws ++ rest)) = true :=
    spells.showsFieldName_names name [] rest
  have untagged : fieldTag.Reads rest none rest := by
    refine .current fun t here => ?_
    rw [here, string]
    exact .pure _ _
  exact structFieldWith_reads_tagged types spells spells.isRead shows ends untagged

/-- A struct type with this as its only field, on one line. -/
theorem typeReads_struct_alone (spells : Spells (.expr .type x) ws) :
    TypeReads (.struct [{ names := [name], type := x.bare }])
      (.keyword .structKw :: .op .leftBrace :: (.ident name :: ws) ++ [.op .rightBrace]) := by
  refine typeReads_struct fun ty types n long rest => ?_
  obtain ⟨n, rfl⟩ : ∃ k, n = k + 1 + 1 := ⟨n - 2, by rw [List.length_cons] at long; omega⟩
  have ends : EndsType (.op .rightBrace :: rest) := ⟨rfl, nofun⟩
  have field := structFieldWith_reads_alone name (types.mono (Nat.le_succ _)) spells ends rfl
  have closes : endStatement.Reads (.op .rightBrace :: rest) () (.op .rightBrace :: rest) := by
    refine .current fun t here => ?_
    rw [here]
    exact .pure _ _
  refine itemsUntil_reads_cons nofun nofun (.bind field (.bind closes (.pure _ _))) ?_
  exact itemsUntil_reads_nil

/-- The same name and type as a specification. -/
theorem typeSpec_reads_array (length : Spells (.expr .length size) us)
    (type : Spells (.expr .type elt) ws) (shut : size.opensTypeParam = false) (ends : EndsType rest)
    (string : (rest.headD .eof).isString = false) :
    (typeSpec none).Reads (.ident name :: (.op .leftBracket :: us ++ .op .rightBracket :: ws ++ rest))
      { name := name, type := .array elt.bare (some size.bare) } rest := by
  intro c clear ahead
  have field := structFieldWith_reads_alone name (.type _) (.array length type) ends string
  obtain ⟨c', run, clear', ahead'⟩ := field c clear ahead
  rw [← TypeExpr.opensTypeParam_bare] at shut
  exact ⟨c', typeSpec_of_structField none run rfl rfl rfl shut, clear', ahead'⟩

/-- A file with one specification as its only declaration. -/
theorem file_reads_typeSpec {spec : TypeSpec}
    (h : (typeSpec none).Reads (.ident name :: us) spec [.op .semicolon]) :
    file.Reads (.keyword .typeKw :: .ident name :: us) ⟨"", [.typeSpec spec]⟩ [] := by
  have single : typeDecl.Reads (.keyword .typeKw :: .ident name :: us) [spec] [] := by
    refine .bind .docHere (.expect fun _ => .isAt (decide_eq_false ?_) ?_)
    · exact nofun
    · exact .bind (statement_reads h) (.pure _ _)
  have decl : declaration.Reads (.keyword .typeKw :: .ident name :: us) [.typeSpec spec] [] := by
    refine .current fun t here => ?_
    rw [here]
    exact .bind single (.pure _ _)
  have decls : ∀ n, (itemsUntil .eof declaration (n + 1 + 1)).Reads
      (.keyword .typeKw :: .ident name :: us) [[.typeSpec spec]] [] := fun n =>
    itemsUntil_reads_cons nofun nofun decl (.isAt (decide_eq_true rfl) (.pure _ _))
  have noPackage : packageClause.Reads (.keyword .typeKw :: .ident name :: us) ""
      (.keyword .typeKw :: .ident name :: us) := .isAt (decide_eq_false nofun) (.pure _ _)
  exact .bind (.passSemis nofun) <| .bind noPackage <| .bind (.bounded (decls _)) (.pure _ _)

/-- Items that do not stand before the closing lexeme or a semicolon begin with one. -/
theorem exists_item_of_itemsUntil {α : Type} {close : Lexeme} {item : Parser α} {n : Nat} {ys : List α}
    (run : itemsUntil close item n c = .ok (ys, c')) (start : c.current.lexeme ≠ close)
    (semi : c.current.lexeme ≠ .op .semicolon) :
    ∃ y zs d, item c = .ok (y, d) ∧ ys = y :: zs := by
  cases n with
  | zero => exact absurd run fail_ne_ok
  | succ n =>
    rw [itemsUntil, isAt_bind, decide_eq_false start] at run
    change (isAt (.op .semicolon) >>= _) c = _ at run
    rw [isAt_bind, decide_eq_false semi] at run
    obtain ⟨y, d, first, run⟩ := bind_eq_ok.1 run
    obtain ⟨zs, _, -, last⟩ := bind_eq_ok.1 run
    obtain ⟨rfl, -⟩ := pure_eq_ok.1 last
    exact ⟨y, zs, d, first, rfl⟩

/-- A file that starts with the word for types and a name has a specification as its first
declaration, which is read behind the word. -/
theorem exists_typeSpec_of_file {f : File} (run : file c = .ok (f, c'))
    (ahead : c.ahead = .keyword .typeKw :: .ident name :: us) :
    ∃ doc spec d ds, typeSpec doc c.advance = .ok (spec, d) ∧ f.decls = .typeSpec spec :: ds := by
  have here : c.current.lexeme = .keyword .typeKw := Cursor.current_lexeme_of_ahead ahead
  have next : c.advance.current.lexeme = .ident name :=
    Cursor.current_lexeme_of_ahead (Cursor.ahead_advance ahead)
  have noSemi : c.current.lexeme ≠ .op .semicolon := by
    rw [here]
    decide
  rw [file, passSemis_bind, passSemis_of_current noSemi] at run
  obtain ⟨package, c₁, clause, run⟩ := bind_eq_ok.1 run
  rw [packageClause, isAt_bind, here] at clause
  obtain ⟨rfl, rfl⟩ := pure_eq_ok.1 clause
  rw [bounded_bind] at run
  obtain ⟨ds, c₂, decls, last⟩ := bind_eq_ok.1 run
  obtain ⟨rfl, -⟩ := pure_eq_ok.1 last
  obtain ⟨first, others, c₃, item, rfl⟩ :=
    exists_item_of_itemsUntil decls (by rw [here]; decide) noSemi
  rw [declaration, current_bind, here] at item
  obtain ⟨specs, c₄, decl, last⟩ := bind_eq_ok.1 item
  obtain ⟨rfl, -⟩ := pure_eq_ok.1 last
  rw [typeDecl, docHere_bind, bind_of_ok (expect_of_ahead ahead), isAt_bind, next] at decl
  obtain ⟨spec, c₅, statement, last⟩ := bind_eq_ok.1 decl
  obtain ⟨rfl, -⟩ := pure_eq_ok.1 last
  obtain ⟨spec', c₆, single, last⟩ := bind_eq_ok.1 statement
  obtain ⟨_, c₇, -, last⟩ := bind_eq_ok.1 last
  obtain ⟨rfl, -⟩ := pure_eq_ok.1 last
  exact ⟨_, spec', c₆, others.flatten, single, rfl⟩

end Reading

end Parser

/-! ## Sources -/

/-- The source has no comments, and its tokens are the lexemes. -/
def IsSourceOf (ws : List Lexeme) (source : String) : Prop :=
  ∃ layout, Layout.ofSource source = .ok layout ∧ layout.comments = [] ∧
    layout.tokens.map Token.lexeme = ws

theorem IsSourceOf.exists_layout {ws : List Lexeme} {source : String} (h : IsSourceOf ws source) :
    ∃ layout, Layout.ofSource source = .ok layout ∧ (Cursor.ofLayout layout).IsClear ∧
      (Cursor.ofLayout layout).ahead = ws := by
  obtain ⟨layout, scanned, comments, tokens⟩ := h
  refine ⟨layout, scanned, ⟨rfl, ?_, ?_⟩, tokens⟩
  · rw [Cursor.ofLayout, Cursor.ofTokens, comments]
    rfl
  · rw [Cursor.ofLayout, Cursor.ofTokens, comments]
    rfl

theorem isSourceOf_of_tokens {ws : List Lexeme} {source : String}
    (h : (Layout.ofSource source).toOption.map (fun l => (l.comments, l.tokens.map Token.lexeme)) =
      some ([], ws)) : IsSourceOf ws source := by
  obtain ⟨layout, scanned, parts⟩ := exists_of_toOption_map h
  obtain ⟨comments, tokens⟩ := Prod.mk.inj parts
  exact ⟨layout, scanned, comments, tokens⟩

theorem Parser.Reads.run {α : Type} {p : Parser α} {x : α} {ws vs : List Lexeme} {source : String}
    (h : p.Reads ws x vs) (is : IsSourceOf ws source) : p.run source = .ok x := by
  obtain ⟨layout, scanned, clear, ahead⟩ := is.exists_layout
  obtain ⟨c, parsed, -⟩ := h _ clear ahead
  exact run_eq_ok.2 ⟨layout, c, scanned, parsed⟩

section Sources

variable {name : String} {size elt x : TypeExpr} {us ws : List Lexeme} {source : String}

/-- A struct type on one line whose only field has a name and a type. -/
theorem TypeExpr.parse_struct_alone (spells : Spells (.expr .type x) ws)
    (is : IsSourceOf (.keyword .structKw :: .op .leftBrace :: .ident name ::
      (ws ++ [.op .rightBrace, .op .semicolon])) source) :
    TypeExpr.parse source = .ok (.struct [{ names := [name], type := x.bare }]) := by
  have ends : EndsType [.op .semicolon] := ⟨rfl, nofun⟩
  have semis : ∀ w ∈ [Lexeme.op .semicolon], w = .op .semicolon := fun w => List.mem_singleton.1
  have struct : TermReads (.struct [{ names := [name], type := x.bare }])
      (.keyword .structKw :: .op .leftBrace :: .ident name :: (ws ++ [.op .rightBrace])) :=
    termReads_type rfl (typeReads_struct_alone spells)
  have reads := constraintWith_reads (.one struct) (.type _) ends nofun
  refine Reads.run (.bind reads (.bind (expectEnd_reads semis) (.pure _ _))) ?_
  simpa only [List.cons_append, List.append_assoc, List.nil_append] using is

/-- A struct with an array as its only field is parsed to it, and the declaration of the same name
with the same array type is parsed to that type exactly if the length does not begin with a name and
one of five operators. -/
theorem File.parse_arrayDecl_iff (length : Spells (.expr .length size) us)
    (type : Spells (.expr .type elt) ws) {source' : String}
    (field : IsSourceOf (.keyword .structKw :: .op .leftBrace :: .ident name ::
      (.op .leftBracket :: us ++ .op .rightBracket :: ws ++ [.op .rightBrace, .op .semicolon])) source)
    (decl : IsSourceOf (.keyword .typeKw :: .ident name ::
      (.op .leftBracket :: us ++ .op .rightBracket :: ws ++ [.op .semicolon])) source') :
    TypeExpr.parse source =
        .ok (.struct [{ names := [name], type := .array elt.bare (some size.bare) }]) ∧
      (File.parse source' =
          .ok ⟨"", [.typeSpec { name := name, type := .array elt.bare (some size.bare) }]⟩ ↔
        size.opensTypeParam = false) := by
  have spells : Spells (.expr .type (.array elt (some size))) _ := .array length type
  have ends : EndsType [.op .semicolon] := ⟨rfl, nofun⟩
  refine ⟨TypeExpr.parse_struct_alone spells field, fun parsed => ?_, fun shut => ?_⟩
  · refine Bool.eq_false_iff.2 fun opens => ?_
    obtain ⟨layout, scanned, clear, ahead⟩ := decl.exists_layout
    obtain ⟨layout', c, scanned', run⟩ := run_eq_ok.1 parsed
    cases scanned.symm.trans scanned'
    obtain ⟨doc, spec, d, ds, read, decls⟩ := exists_typeSpec_of_file run ahead
    cases (List.cons.inj decls).1
    have reads := structFieldWith_reads_alone name (.type _) spells ends rfl
    obtain ⟨c', field, -⟩ := reads _ (clear.pass 1) (Cursor.ahead_advance ahead)
    rw [← TypeExpr.opensTypeParam_bare] at opens
    exact typeParams_of_structField field rfl rfl rfl opens read rfl
  · exact (file_reads_typeSpec (typeSpec_reads_array length type shut ends rfl)).run decl

/-- A length that begins with a name and a plus. -/
theorem File.parse_arrayDecl_iff_sum :
    let hash : TypeExpr :=
      .array (.name "byte") (some (.binary (.name "N") "+" (.literal .int "1")))
    TypeExpr.parse "struct \x7b Hash [N + 1]byte \x7d" =
        .ok (.struct [{ names := ["Hash"], type := hash }]) ∧
      (File.parse "type Hash [N + 1]byte" = .ok ⟨"", [.typeSpec { name := "Hash", type := hash }]⟩ ↔
        (TypeExpr.binary (.name "N") "+" (.literal .int "1")).opensTypeParam = false) := by
  have operator : isLengthOperator (.op .plus) = true := rfl
  have length : Spells (.expr .length (.binary (.name "N") "+" (.literal .int "1"))) _ :=
    .arithmetic operator (.lengthOperand (.operandName .name)) .literal
  have type : Spells (.expr .type (.name "byte")) _ := .typeName .name
  exact File.parse_arrayDecl_iff length type (isSourceOf_of_tokens (by decide +kernel))
    (isSourceOf_of_tokens (by decide +kernel))

/-- With the operator for the bits in common, the field is parsed and the declaration is refused. -/
theorem File.parse_arrayDecl_refused :
    let masked : TypeExpr :=
      .array (.name "int") (some (.binary (.name "N") "&" (.literal .int "3")))
    TypeExpr.parse "struct \x7b X [N & 3]int \x7d" =
        .ok (.struct [{ names := ["X"], type := masked }]) ∧
      ∀ f, File.parse "type X [N & 3]int" ≠ .ok f := by
  have operator : isLengthOperator (.op .ampersand) = true := rfl
  have length : Spells (.expr .length (.binary (.name "N") "&" (.literal .int "3"))) _ :=
    .arithmetic operator (.lengthOperand (.operandName .name)) .literal
  have array : Spells (.expr .type (.array (.name "int") _)) _ := .array length (.typeName .name)
  have refused : (File.parse "type X [N & 3]int").toOption.isNone = true := by decide +kernel
  constructor
  · exact TypeExpr.parse_struct_alone array (isSourceOf_of_tokens (by decide +kernel))
  intro f parsed
  rw [parsed] at refused
  cases refused

end Sources

end Typings
