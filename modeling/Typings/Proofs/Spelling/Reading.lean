import Typings.Proofs.Spelling.Lookahead

/-!
# Reading repetitions

The loops of the parser, given what it reads in one round: operands with operators between them,
items with commas between them, entries of a list, members of a body. A loop is bounded by the
lexemes ahead, and each round passes one at least.
-/

namespace Typings.Parser

variable {us vs rest : List Lexeme}

theorem length_le_flatMap {α β : Type} {f : α → List β} (some : ∀ a, f a ≠ []) (l : List α) :
    l.length ≤ (l.flatMap f).length := by
  induction l with
  | nil => exact Nat.le_refl 0
  | cons a l ih =>
    have := List.length_pos_iff.2 (some a)
    rw [List.flatMap_cons, List.length_append, List.length_cons]
    omega

/-! ## Operators -/

/-- An operator with the operand behind it: its value and its spelling. -/
structure Operand where
  op : Operator
  value : TypeExpr
  spelling : List Lexeme

/-- Operators and operands one after another. -/
def spellOperands (more : List Operand) : List Lexeme :=
  more.flatMap fun m => .op m.op :: m.spelling

/-- A first operand with more behind it, grouped to the left. -/
def foldOperands (first : TypeExpr) (more : List Operand) : TypeExpr :=
  more.foldl (fun x m => .binary x m.op.text m.value) first

/-- Each operand takes a word at least, so that the rounds suffice. -/
theorem length_le_spellOperands (more : List Operand) :
    more.length ≤ (spellOperands more).length := by
  apply length_le_flatMap
  intro m
  exact nofun

section Operands

variable {isOperator : Lexeme → Bool} {operand : Parser TypeExpr} {Ends : List Lexeme → Prop}

/-- Operands behind their operators are read in turn. By induction on the operands; the rounds are those of
their words. -/
theorem operandsAfter_reads
    (ends_op : ∀ {op vs}, isOperator (.op op) = true → Ends (.op op :: vs))
    {more : List Operand}
    (reads : ∀ m ∈ more, isOperator (.op m.op) = true ∧
      ∀ vs, Ends vs → operand.Reads (m.spelling ++ vs) m.value vs)
    (ends : Ends rest) (stops : isOperator (rest.headD .eof) = false) {n : Nat}
    (bound : more.length < n) :
    (operandsAfter isOperator operand n).Reads (spellOperands more ++ rest)
      (more.map fun m => (m.op.text, m.value)) rest := by
  induction more generalizing n with
  | nil =>
    obtain ⟨n, rfl⟩ := Nat.exists_eq_succ_of_ne_zero (Nat.ne_of_gt bound)
    refine .current fun t here => ?_
    change t.lexeme = rest.headD .eof at here
    rw [here, stops]
    exact .pure _ _
  | cons m more ih =>
    obtain ⟨n, rfl⟩ := Nat.exists_eq_succ_of_ne_zero (Nat.ne_of_gt (Nat.zero_lt_of_lt bound))
    obtain ⟨isOp, operand_reads⟩ := reads m (List.mem_cons_self ..)
    have rest_reads := ih (fun m mem => reads m (List.mem_cons_of_mem _ mem))
      (Nat.lt_of_succ_lt_succ bound)
    have ends_more : Ends (spellOperands more ++ rest) := by
      cases more with
      | nil => exact ends
      | cons m' more => exact ends_op (reads m' (List.mem_cons_of_mem _ (List.mem_cons_self ..))).1
    refine .current fun t here => ?_
    change t.lexeme = .op m.op at here
    rw [here, isOp]
    rw [spellOperands, List.flatMap_cons, List.append_assoc, List.cons_append]
    refine .advance fun _ _ => .bind (operand_reads _ ends_more) (.bind rest_reads ?_)
    exact .pure _ _

/-- A chain is read from its first operand on, and put together from the left. -/
theorem chain_reads
    (ends_op : ∀ {op vs}, isOperator (.op op) = true → Ends (.op op :: vs))
    {first : TypeExpr} {more : List Operand}
    (reads_first : ∀ vs, Ends vs → operand.Reads (us ++ vs) first vs)
    (reads : ∀ m ∈ more, isOperator (.op m.op) = true ∧
      ∀ vs, Ends vs → operand.Reads (m.spelling ++ vs) m.value vs)
    (ends : Ends rest) (stops : isOperator (rest.headD .eof) = false) :
    (chain isOperator operand).Reads (us ++ spellOperands more ++ rest) (foldOperands first more)
      rest := by
  have ends_more : Ends (spellOperands more ++ rest) := by
    cases more with
    | nil => exact ends
    | cons m more => exact ends_op (reads m (List.mem_cons_self ..)).1
  have bound : more.length < (spellOperands more ++ rest).length + 1 := by
    have := length_le_spellOperands more
    rw [List.length_append]
    omega
  have loop := operandsAfter_reads ends_op reads ends stops bound
  have value : foldOperands first more =
      (more.map fun m => (m.op.text, m.value)).foldl (fun x m => .binary x m.1 m.2) first := by
    rw [List.foldl_map]
    rfl
  rw [List.append_assoc, value]
  exact .bind (reads_first _ ends_more) (.bind (.bounded loop) (.pure _ _))

end Operands

/-! ## Commas -/

/-- An item with a comma is read before the others. -/
theorem commaItems_reads_cons {item : Parser TypeExpr} {close : Lexeme} {x : TypeExpr}
    {xs : List TypeExpr} {n : Nat} (start : us.headD .eof ≠ close)
    (first : item.Reads us x (.op .comma :: vs))
    (others : (commaItems close item n).Reads vs xs rest) :
    (commaItems close item (n + 1)).Reads us (x :: xs) rest :=
  .isAt (decide_eq_false start) <| .bind first <| .isAt (decide_eq_true rfl) <|
    .advance fun _ _ => .bind others (.pure _ _)

/-- The last item is read up to the bracket. -/
theorem commaItems_reads_one {item : Parser TypeExpr} {close : Lexeme} {x : TypeExpr} {n : Nat}
    (start : us.headD .eof ≠ close) (comma : close ≠ .op .comma)
    (first : item.Reads us x (close :: rest)) :
    (commaItems close item (n + 1)).Reads us [x] (close :: rest) :=
  .isAt (decide_eq_false start) <| .bind first <| .isAt (decide_eq_false comma) (.pure _ _)

/-! ## Entries -/

section Entries

variable {close : Lexeme} {entry : Parser (Option String × TypeExpr)} {name : Option String}
  {x : TypeExpr} {es : List Entry} {n : Nat}

/-- An entry with a comma is read before the others. -/
theorem entriesUntil_reads_cons (start : us.headD .eof ≠ close)
    (next : vs.headD .eof ≠ .op .semicolon) (first : entry.Reads us (name, x) (.op .comma :: vs))
    (others : (entriesUntil close entry n).Reads vs es rest) :
    (entriesUntil close entry (n + 1)).Reads us (⟨name, x, none⟩ :: es) rest :=
  .isAt (decide_eq_false start) <| .bind first <| .isAt (decide_eq_true rfl) <|
    .advance fun _ _ => .bind .commentBehind <| .bind (.passSemis next) <|
      .bind others (.pure _ _)

/-- The last entry is the one that no comma follows, whatever does. -/
theorem entriesUntil_reads_one (start : us.headD .eof ≠ close) (comma : vs.headD .eof ≠ .op .comma)
    (semi : vs.headD .eof ≠ .op .semicolon) (first : entry.Reads us (name, x) vs) :
    (entriesUntil close entry (n + 1)).Reads us [⟨name, x, none⟩] vs :=
  .isAt (decide_eq_false start) <| .bind first <| .isAt (decide_eq_false comma) <|
    .bind .commentBehind <| .bind (.passSemis semi) (.pure _ _)

end Entries

/-- The entries that a field was read from: each of its names but the last stands alone. -/
def entriesOf (f : Field) : List Entry :=
  (f.names.dropLast.map fun name => ⟨none, .name name, none⟩) ++ [⟨f.names.getLast?, f.type, none⟩]

/-- Entries that are names alone wait for the type behind them. -/
theorem groupNames_names (names pending : List String) (es : List Entry) :
    groupNames pending ((names.map fun name => ⟨none, .name name, none⟩) ++ es) =
      groupNames (pending ++ names) es := by
  induction names generalizing pending with
  | nil => rw [List.map_nil, List.nil_append, List.append_nil]
  | cons name names ih =>
    rw [List.map_cons, List.cons_append, List.append_cons]
    exact ih _

/-- Named fields are grouped back from their entries. -/
theorem groupNames_entriesOf {fields : List Field}
    (h : ∀ f ∈ fields, f.names ≠ [] ∧ f = { names := f.names, type := f.type }) :
    groupNames [] (fields.flatMap entriesOf) = .ok fields := by
  induction fields with
  | nil => rfl
  | cons f fields ih =>
    obtain ⟨named, plain⟩ := h f (List.mem_cons_self ..)
    have rest := ih fun g mem => h g (List.mem_cons_of_mem _ mem)
    rw [List.flatMap_cons, entriesOf, List.append_assoc, groupNames_names, List.nil_append,
      List.getLast?_eq_some_getLast named, List.singleton_append, groupNames, rest]
    show Except.ok ({ names := f.names.dropLast ++ [f.names.getLast named], type := f.type } ::
      fields) = _
    rw [List.dropLast_concat_getLast, ← plain]

/-- Unnamed fields are their entries. -/
theorem map_entriesOf {fields : List Field}
    (h : ∀ f ∈ fields, f.names = [] ∧ f = { names := f.names, type := f.type }) :
    (fields.flatMap entriesOf).any (fun e => e.name.isSome) = false ∧
      (fields.flatMap entriesOf).map (fun e => { names := [], type := e.type, comment := e.comment })
        = fields := by
  induction fields with
  | nil => exact ⟨rfl, rfl⟩
  | cons f fields ih =>
    obtain ⟨unnamed, plain⟩ := h f (List.mem_cons_self ..)
    obtain ⟨none, same⟩ := ih fun g mem => h g (List.mem_cons_of_mem _ mem)
    have own : entriesOf f = [⟨.none, f.type, .none⟩] := by
      rw [entriesOf, unnamed]
      rfl
    rw [List.flatMap_cons, own]
    refine ⟨none, ?_⟩
    rw [List.singleton_append, List.map_cons, same]
    congr 1
    rw [← unnamed]
    exact plain.symm

/-- What the entries of fields are grouped to, all of them named or none. -/
theorem fieldsOf_entriesOf {named : Bool} {fields : List Field} (some : fields ≠ [])
    (h : ∀ f ∈ fields, f.names.isEmpty = !named ∧ f = { names := f.names, type := f.type }) :
    fieldsOf (fields.flatMap entriesOf) = .ok fields := by
  rw [fieldsOf]
  cases named with
  | true =>
    have all : ∀ f ∈ fields, f.names ≠ [] ∧ f = { names := f.names, type := f.type } := by
      intro f mem
      obtain ⟨empty, plain⟩ := h f mem
      refine ⟨?_, plain⟩
      intro none
      rw [none] at empty
      cases empty
    have shown : (fields.flatMap entriesOf).any (fun e => e.name.isSome) = true := by
      obtain ⟨f, fields', rfl⟩ := List.exists_cons_of_ne_nil some
      have named := (all f (List.mem_cons_self ..)).1
      rw [List.flatMap_cons, entriesOf, List.getLast?_eq_some_getLast named]
      simp
    rw [if_pos shown]
    exact groupNames_entriesOf all
  | false =>
    obtain ⟨none, same⟩ := map_entriesOf fun f mem =>
      ⟨List.isEmpty_iff.1 (h f mem).1, (h f mem).2⟩
    rw [none, if_neg Bool.false_ne_true, same]

/-! ## Members -/

section Members

variable {α : Type} {close : Lexeme} {item : Parser α} {x : α} {xs : List α} {n : Nat}

theorem itemsUntil_reads_nil :
    (itemsUntil close item (n + 1)).Reads (close :: rest) [] (close :: rest) :=
  .isAt (decide_eq_true rfl) (.pure _ _)

/-- A member is read before the others. -/
theorem itemsUntil_reads_cons (start : us.headD .eof ≠ close)
    (semi : us.headD .eof ≠ .op .semicolon) (first : item.Reads us x vs)
    (others : (itemsUntil close item n).Reads vs xs rest) :
    (itemsUntil close item (n + 1)).Reads us (x :: xs) rest :=
  .isAt (decide_eq_false start) <| .isAt (decide_eq_false semi) <| .bind first <|
    .bind others (.pure _ _)

/-- A member and the semicolon behind it. -/
theorem statement_reads {member : Parser α} (h : member.Reads us x (.op .semicolon :: vs)) :
    (do
      let field ← member
      endStatement
      pure field : Parser α).Reads us x vs := by
  have semi : endStatement.Reads (.op .semicolon :: vs) () vs := by
    refine .current fun t here => ?_
    rw [here]
    intro c clear ahead
    exact ⟨c.advance, rfl, clear.pass 1, Cursor.ahead_advance ahead⟩
  exact .bind h (.bind semi (.pure _ _))

end Members

/-- Further names of a field. -/
theorem moreNames_reads {names : List String} (stops : rest.headD .eof ≠ .op .comma) {n : Nat}
    (bound : names.length < n) :
    (moreNames n).Reads ((names.flatMap fun name => [.op .comma, .ident name]) ++ rest) names
      rest := by
  induction names generalizing n with
  | nil =>
    obtain ⟨n, rfl⟩ := Nat.exists_eq_succ_of_ne_zero (Nat.ne_of_gt bound)
    exact .isAt (decide_eq_false stops) (.pure _ _)
  | cons name names ih =>
    obtain ⟨n, rfl⟩ := Nat.exists_eq_succ_of_ne_zero (Nat.ne_of_gt (Nat.zero_lt_of_lt bound))
    exact .isAt (decide_eq_true rfl) <| .advance fun _ _ => .bind .ident <|
      .bind (ih (Nat.lt_of_succ_lt_succ bound)) (.pure _ _)

end Typings.Parser
