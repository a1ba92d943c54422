import Typings.Proofs.Spelling.Reading

/-!
# Types and array lengths are read back

What spells a type is read as it wherever the spelling stands before lexemes that cannot continue
it, given as many levels of nesting as there are lexemes (`TypeReads`), and so is an array length
(`OperandReads`). One lemma for each way to begin goes from the parts to the whole.
-/

namespace Typings

open Typings.Parser

/-! ## Where a phrase ends -/

/-- No type goes on with these lexemes. -/
def EndsType (rest : List Lexeme) : Prop :=
  (rest.headD .eof).startsType = false ∧ rest.headD .eof ≠ .op .dot

/-- Where a type ends, nothing follows that begins one. -/
theorem EndsType.head_ne {rest : List Lexeme} (ends : EndsType rest) {w : Lexeme}
    (starts : w.startsType = true) : rest.headD .eof ≠ w := by
  rintro rfl
  exact Bool.false_ne_true (ends.1.symm.trans starts)

/-- No operand of an array length goes on with these lexemes. -/
def EndsOperand (rest : List Lexeme) : Prop :=
  rest.headD .eof ≠ .op .dot ∧ rest.headD .eof ≠ .op .leftParen

theorem endsOperand_of_isLengthOperator {op : Operator} {vs : List Lexeme}
    (h : isLengthOperator (.op op) = true) : EndsOperand (.op op :: vs) := by
  constructor <;> rintro ⟨⟩ <;> cases h

theorem endsType_of_bar {op : Operator} {vs : List Lexeme}
    (h : decide (Lexeme.op op = .op .bar) = true) : EndsType (.op op :: vs) := by
  rw [of_decide_eq_true h]
  exact ⟨rfl, nofun⟩

/-! ## Reading by levels -/

/-- Some lexemes are read as a type, given as many levels of nesting as there are lexemes. -/
def TypeReads (x : TypeExpr) (ws : List Lexeme) : Prop :=
  ∀ n, ws.length ≤ n → ∀ rest, EndsType rest → (typeWithin n).Reads (ws ++ rest) x rest

/-- Some lexemes are read as an operand of an array length. -/
def OperandReads (x : TypeExpr) (ws : List Lexeme) : Prop :=
  ∀ n, ws.length ≤ n → ∀ rest, EndsOperand rest → (lengthOperandWithin n).Reads (ws ++ rest) x rest

/-- The parser reads what types with enough levels of nesting are read from, up to a length. -/
def Parser.ReadsTypes (ty : Parser TypeExpr) (bound : Nat) : Prop :=
  ∀ (x : TypeExpr) (ws rest : List Lexeme), ws.length ≤ bound →
    (∀ n, ws.length ≤ n → (typeWithin n).Reads (ws ++ rest) x rest) → ty.Reads (ws ++ rest) x rest

namespace Parser.ReadsTypes

variable {ty : Parser TypeExpr} {m n : Nat}

theorem typeWithin (n : Nat) : (typeWithin n).ReadsTypes n := fun _ _ _ le h => h n le

theorem type (n : Nat) : type.ReadsTypes n := fun _ _ _ _ h =>
  .bounded (h _ (by rw [List.length_append]; omega))

theorem mono (h : ty.ReadsTypes n) (le : m ≤ n) : ty.ReadsTypes m :=
  fun x ws rest le' k => h x ws rest (Nat.le_trans le' le) k

/-- A type that is read within its lexemes is read with more levels than these. -/
theorem reads (h : ty.ReadsTypes n) {x : TypeExpr} {ws rest : List Lexeme} (t : TypeReads x ws)
    (le : ws.length ≤ n) (ends : EndsType rest) : ty.Reads (ws ++ rest) x rest :=
  h _ _ _ le fun _ le' => t _ le' rest ends

end Parser.ReadsTypes

/-- A term of a constraint is read, given a parser for types. -/
def TermReads (x : TypeExpr) (ws : List Lexeme) : Prop :=
  ∀ ty : Parser TypeExpr, ty.ReadsTypes ws.length → ∀ rest, EndsType rest →
    (constraintTerm ty).Reads (ws ++ rest) x rest

/-- Some lexemes are operands with operators between them, each of which is read. -/
def ChainReads (isOperator : Lexeme → Bool) (ItemReads : TypeExpr → List Lexeme → Prop)
    (x : TypeExpr) (ws : List Lexeme) : Prop :=
  ∃ first us more, ws = us ++ spellOperands more ∧ x = foldOperands first more ∧
    ItemReads first us ∧ ∀ m ∈ more, isOperator (.op m.op) = true ∧ ItemReads m.value m.spelling

namespace ChainReads

variable {isOperator : Lexeme → Bool} {ItemReads : TypeExpr → List Lexeme → Prop} {x y : TypeExpr}
  {ws vs : List Lexeme}

theorem one (h : ItemReads x ws) : ChainReads isOperator ItemReads x ws :=
  ⟨x, ws, [], (List.append_nil ws).symm, rfl, h, List.forall_mem_nil _⟩

/-- One more operand behind an operator is put to the right of those before it. -/
theorem concat {op : Operator} (isOp : isOperator (.op op) = true)
    (h : ChainReads isOperator ItemReads x ws) (k : ItemReads y vs) :
    ChainReads isOperator ItemReads (.binary x op.text y) (ws ++ .op op :: vs) := by
  obtain ⟨first, us, more, rfl, rfl, reads, rest⟩ := h
  refine ⟨first, us, more ++ [⟨op, y, vs⟩], ?_, ?_, reads, ?_⟩
  · rw [spellOperands, spellOperands, List.flatMap_append, List.flatMap_singleton,
      List.append_assoc]
  · rw [foldOperands, foldOperands, List.foldl_append]
    rfl
  · intro m mem
    rcases List.mem_append.1 mem with before | last
    · exact rest m before
    · rw [List.mem_singleton.1 last]
      exact ⟨isOp, k⟩

/-- An operand of a chain is no longer than the chain. -/
theorem length_le {m : Operand} {more : List Operand} {us : List Lexeme} (mem : m ∈ more) :
    m.spelling.length ≤ (us ++ spellOperands more).length := by
  obtain ⟨before, after, rfl⟩ := List.append_of_mem mem
  rw [spellOperands, List.flatMap_append, List.flatMap_cons]
  simp only [List.length_append, List.length_cons]
  omega

end ChainReads

/-- Some lexemes are terms with bars between them, each of which is read. -/
def ConstraintReads (x : TypeExpr) (ws : List Lexeme) : Prop :=
  ChainReads (· = .op .bar) TermReads x ws

theorem ConstraintReads.one {x : TypeExpr} {ws : List Lexeme} (h : TermReads x ws) :
    ConstraintReads x ws := ChainReads.one h

theorem ConstraintReads.union {x y : TypeExpr} {ws vs : List Lexeme} (h : ConstraintReads x ws)
    (k : TermReads y vs) : ConstraintReads (.binary x "|" y) (ws ++ .op .bar :: vs) :=
  ChainReads.concat rfl h k

/-- An array length is read by operands that have enough levels of nesting. -/
theorem lengths_reads {operand : Parser TypeExpr} {x : TypeExpr} {ws rest : List Lexeme}
    (h : ChainReads isLengthOperator OperandReads x ws)
    (reads : ∀ {y vs rest}, vs.length ≤ ws.length → OperandReads y vs → EndsOperand rest →
      operand.Reads (vs ++ rest) y rest)
    (ends : EndsOperand rest) (stops : isLengthOperator (rest.headD .eof) = false) :
    (chain isLengthOperator operand).Reads (ws ++ rest) x rest := by
  obtain ⟨first, us, more, rfl, rfl, hfirst, hmore⟩ := h
  refine chain_reads endsOperand_of_isLengthOperator (fun vs ends => ?_) (fun m mem => ?_) ends stops
  · exact reads (by rw [List.length_append]; omega) hfirst ends
  · obtain ⟨isOp, hm⟩ := hmore m mem
    exact ⟨isOp, fun vs ends => reads (ChainReads.length_le mem) hm ends⟩

/-- A length is read up to a lexeme that goes on with none. -/
theorem length_reads {x : TypeExpr} {ws rest : List Lexeme}
    (h : ChainReads isLengthOperator OperandReads x ws) (ends : EndsOperand rest)
    (stops : isLengthOperator (rest.headD .eof) = false) :
    Parser.length.Reads (ws ++ rest) x rest := by
  refine lengths_reads h (fun _ reads ends => .bounded ?_) ends stops
  exact reads _ (by rw [List.length_append]; omega) _ ends

/-- A constraint is read up to a lexeme that goes on with none. -/
theorem constraintWith_reads {ty : Parser TypeExpr} {x : TypeExpr} {ws rest : List Lexeme}
    (h : ConstraintReads x ws) (types : ty.ReadsTypes ws.length)
    (ends : EndsType rest) (stops : rest.headD .eof ≠ .op .bar) :
    (constraintWith ty).Reads (ws ++ rest) x rest := by
  obtain ⟨first, us, more, rfl, rfl, hfirst, hmore⟩ := h
  refine chain_reads endsType_of_bar (fun vs ends => ?_) (fun m mem => ?_) ends
    (decide_eq_false stops)
  · exact hfirst ty (types.mono (by rw [List.length_append]; omega)) vs ends
  · obtain ⟨isOp, hm⟩ := hmore m mem
    exact ⟨isOp, fun vs ends => hm ty (types.mono (ChainReads.length_le mem)) vs ends⟩

/-! ## Types by their first lexeme -/

section Types

variable {ty : Parser TypeExpr} {x y : TypeExpr} {w : Lexeme} {us ws vs rest : List Lexeme}

/-- A type that begins with a lexeme is read if the parser for types reads it with one level less. -/
theorem typeReads_cons
    (h : ∀ ty : Parser TypeExpr, ty.ReadsTypes us.length → ∀ rest, EndsType rest →
      (typeWith ty).Reads (w :: (us ++ rest)) x rest) : TypeReads x (w :: us) := by
  intro n le rest ends
  obtain ⟨n, rfl⟩ := Nat.exists_eq_succ_of_ne_zero (Nat.ne_of_gt (Nat.zero_lt_of_lt le))
  exact h _ ((ReadsTypes.typeWithin n).mono (Nat.le_of_succ_le_succ le)) rest ends

/-- Where a type ends, no arguments follow. -/
theorem showsTypeArgs_of_endsType (ends : EndsType rest) : showsTypeArgs rest = false := by
  unfold showsTypeArgs
  rw [decide_eq_false (ends.head_ne rfl)]
  rfl

/-- A possibly qualified name without type arguments. -/
theorem typeNameWith_reads {name : String} (base : (qualifiedFrom name).Reads us x rest)
    (stops : showsTypeArgs rest = false) : (typeNameWith ty).Reads (.ident name :: us) x rest :=
  .bind .ident <| .bind base <|
    .ask (fun c clear ahead => by rw [clear.showsTypeArgs, ahead, stops]) (.pure _ _)

theorem qualifiedFrom_reads_name {name : String} (stops : rest.headD .eof ≠ .op .dot) :
    (qualifiedFrom name).Reads rest (.name name) rest :=
  .isAt (decide_eq_false stops) (.pure _ _)

/-- A plain name, which a type argument or a second name must not follow. -/
theorem Parser.ReadsTypes.reads_name {n : Nat} (types : ty.ReadsTypes n) (name : String)
    (some : 1 ≤ n) (rest : List Lexeme) (dot : rest.headD .eof ≠ .op .dot)
    (stops : showsTypeArgs rest = false) :
    ty.Reads (.ident name :: rest) (.name name) rest := by
  refine types _ [.ident name] rest some fun n le => ?_
  obtain ⟨n, rfl⟩ := Nat.exists_eq_succ_of_ne_zero (Nat.ne_of_gt (Nat.zero_lt_of_lt le))
  refine .current fun t here => ?_
  rw [here]
  exact typeNameWith_reads (qualifiedFrom_reads_name dot) stops

/-- A lexeme that may begin something is none of those that may not. -/
theorem ne_of_begins {begins : Lexeme → Bool} {v : Lexeme} (h : begins w = true)
    (hv : begins v = false) : w ≠ v := by
  rintro rfl
  exact Bool.false_ne_true (hv.symm.trans h)

theorem typeReads_pointer (h : TypeReads x us) : TypeReads (.pointer x) (.op .star :: us) := by
  refine typeReads_cons fun ty types rest ends => .current fun t here => ?_
  rw [here]
  exact .advance fun _ _ => .bind (types.reads h (Nat.le_refl _) ends) (.pure _ _)

theorem typeReads_slice (h : TypeReads x us) :
    TypeReads (.array x none) (.op .leftBracket :: .op .rightBracket :: us) := by
  refine typeReads_cons fun ty types rest ends => .current fun t here => ?_
  rw [here]
  exact .advance fun _ _ => .isAt (decide_eq_true rfl) <| .advance fun _ _ =>
    .bind (types.reads h (Nat.le_succ _) ends) (.pure _ _)

theorem typeReads_counted (h : TypeReads x us) :
    TypeReads (.array x (some (.counted "...")))
      (.op .leftBracket :: .op .ellipsis :: .op .rightBracket :: us) := by
  refine typeReads_cons fun ty types rest ends => .current fun t here => ?_
  rw [here]
  exact .advance fun _ _ => .isAt (decide_eq_false nofun) <| .isAt (decide_eq_true rfl) <|
    .advance fun _ _ => .expect fun _ =>
      .bind (types.reads h (Nat.le_add_right _ 2) ends) (.pure _ _)

/-- An array is read by its brackets; what is between them begins a length. -/
theorem typeReads_array (starts : w.startsLength = true)
    (h : ChainReads isLengthOperator OperandReads y (w :: vs)) (k : TypeReads x us) :
    TypeReads (.array x (some y)) (.op .leftBracket :: w :: vs ++ .op .rightBracket :: us) := by
  rw [List.cons_append]
  refine typeReads_cons fun ty types rest ends => ?_
  rw [List.append_assoc]
  refine .current fun t here => ?_
  rw [here]
  refine .advance fun _ _ => .isAt (decide_eq_false (ne_of_begins starts rfl)) <|
    .isAt (decide_eq_false (ne_of_begins starts rfl)) ?_
  have elt := types.reads k (by simp only [List.length_append, List.length_cons]; omega) ends
  exact .bind (length_reads h ⟨nofun, nofun⟩ rfl) <| .expect fun _ => .bind elt (.pure _ _)

theorem typeReads_map (h : TypeReads x us) (k : TypeReads y vs) :
    TypeReads (.map x y) (.keyword .mapKw :: .op .leftBracket :: us ++ .op .rightBracket :: vs) := by
  rw [List.cons_append]
  refine typeReads_cons fun ty types rest ends => ?_
  rw [List.append_assoc]
  refine .current fun t here => ?_
  rw [here]
  refine .advance fun _ _ => .expect fun _ => ?_
  have closing : EndsType (.op .rightBracket :: vs ++ rest) := ⟨rfl, nofun⟩
  have key := types.reads h (by simp only [List.length_append, List.length_cons]; omega) closing
  have value := types.reads k (by simp only [List.length_append, List.length_cons]; omega) ends
  exact .bind key <| .expect fun _ => .bind value (.pure _ _)

/-- A channel without a direction is read as such, since no arrow follows its keyword. -/
theorem typeReads_channel (start : us.headD .eof ≠ .op .arrow) (some : us ≠ [])
    (h : TypeReads x us) : TypeReads (.channel .both x) (.keyword .chanKw :: us) := by
  refine typeReads_cons fun ty types rest ends => .current fun t here => ?_
  rw [here]
  have elsewhere : (us ++ rest).headD .eof ≠ .op .arrow := by
    cases us with
    | nil => exact absurd rfl some
    | cons => exact start
  exact .advance fun _ _ => .isAt (decide_eq_false elsewhere) <|
    .bind (types.reads h (Nat.le_refl _) ends) (.pure _ _)

theorem typeReads_channelSend (h : TypeReads x us) :
    TypeReads (.channel .send x) (.keyword .chanKw :: .op .arrow :: us) := by
  refine typeReads_cons fun ty types rest ends => .current fun t here => ?_
  rw [here]
  exact .advance fun _ _ => .isAt (decide_eq_true rfl) <| .advance fun _ _ =>
    .bind (types.reads h (Nat.le_succ _) ends) (.pure _ _)

theorem typeReads_channelReceive (h : TypeReads x us) :
    TypeReads (.channel .receive x) (.op .arrow :: .keyword .chanKw :: us) := by
  refine typeReads_cons fun ty types rest ends => .current fun t here => ?_
  rw [here]
  exact .advance fun _ _ => .expect fun _ =>
    .bind (types.reads h (Nat.le_succ _) ends) (.pure _ _)

theorem typeReads_paren (h : TypeReads x us) :
    TypeReads (.paren x) (.op .leftParen :: us ++ [.op .rightParen]) := by
  rw [List.cons_append]
  refine typeReads_cons fun ty types rest ends => ?_
  rw [List.append_assoc]
  refine .current fun t here => ?_
  rw [here]
  refine .advance fun _ _ => ?_
  have closing : EndsType (.op .rightParen :: rest) := ⟨rfl, nofun⟩
  have inner := types.reads h (by rw [List.length_append]; omega) closing
  exact .bind inner <| .expect fun _ => .pure _ _

/-- Expressions with commas between them are read up to a closing bracket. -/
def ItemsRead (close : Lexeme) (item : Parser TypeExpr) (xs : List TypeExpr) (ws : List Lexeme) :
    Prop :=
  ∀ m, ws.length < m → ∀ rest, (commaItems close item m).Reads (ws ++ close :: rest) xs
    (close :: rest)

/-- A generic type is read with its arguments, as the first of them begins a type. -/
theorem typeReads_generic {name : String} {args : List TypeExpr}
    (base : ∀ rest, rest.headD .eof ≠ .op .dot → (qualifiedFrom name).Reads (us ++ rest) x rest)
    (starts : w.startsType = true)
    (h : ∀ ty : Parser TypeExpr, ty.ReadsTypes (w :: vs).length →
      ItemsRead (.op .rightBracket) ty args (w :: vs)) :
    TypeReads (.generic x args)
      (.ident name :: us ++ .op .leftBracket :: w :: vs ++ [.op .rightBracket]) := by
  rw [List.append_assoc, List.cons_append]
  refine typeReads_cons fun ty types rest ends => .current fun t here => ?_
  rw [here, List.append_assoc]
  have shows : showsTypeArgs (.op .leftBracket :: w :: vs ++ [.op .rightBracket] ++ rest) = true := by
    have other : w ≠ .op .rightBracket := ne_of_begins starts rfl
    simp [showsTypeArgs, other]
  have items := h ty (types.mono (by simp only [List.length_append, List.length_cons]; omega))
  refine .bind .ident <| .bind (base _ nofun) <|
    .ask (fun c clear ahead => by rw [clear.showsTypeArgs, ahead, shows]) ?_
  rw [List.append_assoc]
  have args := items ((w :: vs ++ .op .rightBracket :: rest).length + 1)
    (by rw [List.length_append]; omega) rest
  exact .advance fun _ _ => .bind (.bounded args) <| .expect fun _ => .pure _ _

/-- A signature is read as its parameters and its results. -/
theorem signatureWith_reads {params results : List Field}
    (h : ∀ rest, (paramsWith ty).Reads (us ++ rest) params rest)
    (k : (resultsWith ty).Reads (vs ++ rest) results rest) :
    (signatureWith ty).Reads (us ++ vs ++ rest) (.func params results []) rest := by
  rw [List.append_assoc]
  exact .bind (h _) <| .bind k (.pure _ _)

/-- A function is read up to where its results end. -/
theorem typeReads_func {params results : List Field}
    (h : ∀ ty : Parser TypeExpr, ty.ReadsTypes us.length → ∀ rest,
      (paramsWith ty).Reads (us ++ rest) params rest)
    (k : ∀ ty : Parser TypeExpr, ty.ReadsTypes vs.length → ∀ rest, EndsType rest →
      (resultsWith ty).Reads (vs ++ rest) results rest) :
    TypeReads (.func params results []) (.keyword .funcKw :: us ++ vs) := by
  rw [List.cons_append]
  refine typeReads_cons fun ty types rest ends => .current fun t here => ?_
  rw [here]
  refine .advance fun _ _ => signatureWith_reads (h ty (types.mono ?_)) (k ty (types.mono ?_) _ ends)
  · rw [List.length_append]
    omega
  · rw [List.length_append]
    omega

/-- The members of a body are read up to its closing brace. -/
def MembersRead (member : Parser Field) (fields : List Field) (ws : List Lexeme) : Prop :=
  ∀ m, ws.length < m → ∀ rest,
    (itemsUntil (.op .rightBrace)
      (do
        let field ← member
        endStatement
        pure field) m).Reads (ws ++ .op .rightBrace :: rest) fields (.op .rightBrace :: rest)

/-- A body is read member by member. -/
theorem bodyOf_reads {member : Parser Field} {fields : List Field}
    (h : MembersRead member fields us) :
    (bodyOf member).Reads (.op .leftBrace :: us ++ [.op .rightBrace] ++ rest) fields rest := by
  rw [List.append_assoc]
  have members := h ((us ++ .op .rightBrace :: rest).length + 1)
    (by rw [List.length_append]; omega) rest
  exact .expect fun _ => .bind (.bounded members) <| .expect fun _ => .pure _ _

/-- A struct is read field by field. -/
theorem typeReads_struct {fields : List Field}
    (h : ∀ ty : Parser TypeExpr, ty.ReadsTypes us.length →
      MembersRead (structFieldWith ty) fields us) :
    TypeReads (.struct fields) (.keyword .structKw :: .op .leftBrace :: us ++ [.op .rightBrace]) := by
  rw [List.cons_append]
  refine typeReads_cons fun ty types rest ends => .current fun t here => ?_
  rw [here]
  have members := h ty (types.mono (by simp only [List.length_append, List.length_cons]; omega))
  exact .expect fun _ => .bind (bodyOf_reads members) (.pure _ _)

/-- An interface is read member by member. -/
theorem typeReads_interface {methods : List Field}
    (h : ∀ ty : Parser TypeExpr, ty.ReadsTypes us.length →
      MembersRead (interfaceMemberWith ty) methods us) :
    TypeReads (.interface methods)
      (.keyword .interfaceKw :: .op .leftBrace :: us ++ [.op .rightBrace]) := by
  rw [List.cons_append]
  refine typeReads_cons fun ty types rest ends => .current fun t here => ?_
  rw [here]
  have members := h ty (types.mono (by simp only [List.length_append, List.length_cons]; omega))
  exact .expect fun _ => .bind (bodyOf_reads members) (.pure _ _)

end Types

/-! ## Array lengths by their first lexeme -/

section Operands

variable {x : TypeExpr} {w : Lexeme} {us vs : List Lexeme}

/-- An operand that begins with a lexeme is read if the parser for operands reads it with one level less. -/
theorem operandReads_cons
    (h : ∀ n, us.length ≤ n → ∀ rest, EndsOperand rest →
      (lengthOperandWith (lengthOperandWithin n)).Reads (w :: (us ++ rest)) x rest) :
    OperandReads x (w :: us) := by
  intro n le rest ends
  obtain ⟨n, rfl⟩ := Nat.exists_eq_succ_of_ne_zero (Nat.ne_of_gt (Nat.zero_lt_of_lt le))
  exact h n (Nat.le_of_succ_le_succ le) rest ends

theorem operandReads_literal {kind : LiteralKind} {text : String} :
    OperandReads (.literal kind text) [.literal kind text] := by
  refine operandReads_cons fun n _ rest _ => .current fun t here => ?_
  rw [here]
  exact .advance fun _ _ => .pure _ _

theorem operandReads_name {name : String}
    (base : ∀ rest, rest.headD .eof ≠ .op .dot → (qualifiedFrom name).Reads (us ++ rest) x rest) :
    OperandReads x (.ident name :: us) := by
  refine operandReads_cons fun n _ rest ends => .current fun t here => ?_
  rw [here]
  exact .advance fun _ _ => .bind (base _ ends.1) <| .isAt (decide_eq_false ends.2) (.pure _ _)

/-- A length inside of an operand is read with the levels that are left. -/
theorem lengths_reads_within {y : TypeExpr} {n : Nat}
    (h : ChainReads isLengthOperator OperandReads y vs) (le : vs.length ≤ n) {rest : List Lexeme}
    (ends : EndsOperand rest) (stops : isLengthOperator (rest.headD .eof) = false) :
    (chain isLengthOperator (lengthOperandWithin n)).Reads (vs ++ rest) y rest :=
  lengths_reads h (fun le' reads ends => reads n (Nat.le_trans le' le) _ ends) ends stops

theorem operandReads_callEmpty {name : String}
    (base : ∀ rest, rest.headD .eof ≠ .op .dot → (qualifiedFrom name).Reads (us ++ rest) x rest) :
    OperandReads (.call x []) (.ident name :: us ++ [.op .leftParen, .op .rightParen]) := by
  rw [List.cons_append]
  refine operandReads_cons fun n _ rest ends => .current fun t here => ?_
  rw [here, List.append_assoc]
  exact .advance fun _ _ => .bind (base _ nofun) <| .isAt (decide_eq_true rfl) <|
    .advance fun _ _ => .bind (.bounded (.isAt (decide_eq_true rfl) (.pure _ _))) <|
      .expect fun _ => .pure _ _

theorem operandReads_call {name : String} {args : List TypeExpr}
    (base : ∀ rest, rest.headD .eof ≠ .op .dot → (qualifiedFrom name).Reads (us ++ rest) x rest)
    (h : ∀ n, vs.length ≤ n →
      ItemsRead (.op .rightParen) (chain isLengthOperator (lengthOperandWithin n)) args vs) :
    OperandReads (.call x args) (.ident name :: us ++ .op .leftParen :: vs ++ [.op .rightParen]) := by
  rw [List.append_assoc, List.cons_append]
  refine operandReads_cons fun n le rest ends => .current fun t here => ?_
  rw [here, List.append_assoc, List.append_assoc]
  simp only [List.length_append, List.length_cons] at le
  have items := h n (by omega) ((vs ++ .op .rightParen :: rest).length + 1)
    (by rw [List.length_append]; omega) rest
  exact .advance fun _ _ => .bind (base _ nofun) <| .isAt (decide_eq_true rfl) <|
    .advance fun _ _ => .bind (.bounded items) <| .expect fun _ => .pure _ _

theorem operandReads_paren (h : ChainReads isLengthOperator OperandReads x us) :
    OperandReads (.paren x) (.op .leftParen :: us ++ [.op .rightParen]) := by
  rw [List.cons_append]
  refine operandReads_cons fun n le rest ends => .current fun t here => ?_
  rw [here, List.append_assoc]
  rw [List.length_append] at le
  have closing : EndsOperand (.op .rightParen :: rest) := ⟨nofun, nofun⟩
  have inner := lengths_reads_within h (n := n) (by omega) closing rfl
  exact .advance fun _ _ => .bind inner <| .expect fun _ => .pure _ _

theorem operandReads_sign {op : Operator} (sign : isSign (.op op) = true) (h : OperandReads x us) :
    OperandReads (.unary op.text x) (.op op :: us) := by
  refine operandReads_cons fun n le rest ends => .current fun t here => ?_
  rw [here]
  have reads : (if isSign (.op op) then do
        let _ ← advance
        let x ← lengthOperandWithin n
        pure (.unary (Lexeme.op op).text x)
      else fail (.expected .length) : Parser TypeExpr).Reads (.op op :: (us ++ rest))
      (.unary op.text x) rest := by
    rw [if_pos sign]
    exact .advance fun _ _ => .bind (h n le rest ends) (.pure _ _)
  cases op with
  | leftParen => cases sign
  | _ => exact reads

end Operands

/-! ## Items -/

section Items

variable {close : Lexeme} {item : Parser TypeExpr} {x : TypeExpr} {xs : List TypeExpr} {w : Lexeme}
  {us vs : List Lexeme}

/-- The last item is read up to the closing bracket. -/
theorem itemsRead_one (start : w ≠ close) (comma : close ≠ .op .comma)
    (h : ∀ rest, item.Reads (w :: us ++ close :: rest) x (close :: rest)) :
    ItemsRead close item [x] (w :: us) := by
  intro m lt rest
  obtain ⟨m, rfl⟩ := Nat.exists_eq_succ_of_ne_zero (Nat.ne_of_gt (Nat.zero_lt_of_lt lt))
  exact commaItems_reads_one start comma (h rest)

/-- An item is read up to the comma behind it, and then the others are. -/
theorem itemsRead_more (start : w ≠ close)
    (h : ∀ rest, item.Reads (w :: us ++ .op .comma :: rest) x (.op .comma :: rest))
    (k : ItemsRead close item xs vs) :
    ItemsRead close item (x :: xs) (w :: us ++ .op .comma :: vs) := by
  intro m lt rest
  obtain ⟨m, rfl⟩ := Nat.exists_eq_succ_of_ne_zero (Nat.ne_of_gt (Nat.zero_lt_of_lt lt))
  rw [List.append_assoc]
  simp only [List.length_append, List.length_cons] at lt
  exact commaItems_reads_cons start (h _) (k m (by omega) rest)

end Items

end Typings
