import Typings.Proofs.Spelling.FieldsRead

/-!
# What is spelled is read

Each phrase is read back from its spelling, without the comments in it, wherever that stands before
lexemes that cannot continue it. `Phrase.IsRead` says so for each phrase, given a parser for the
types in it, and `Spells.isRead` shows it by induction over the spelling.
-/

namespace Typings

open Typings.Parser

/-! ## All phrases -/

/-- Some lexemes are read as a possibly qualified name. -/
def BaseReads (x : TypeExpr) (ws : List Lexeme) : Prop :=
  ∃ name us, ws = .ident name :: us ∧
    ∀ rest, rest.headD .eof ≠ .op .dot → (qualifiedFrom name).Reads (us ++ rest) x rest

/-- Some lexemes are read as what the phrase says, given a parser for the types in it. -/
def Phrase.IsRead : Phrase → List Lexeme → Prop
  | .expr .base x, ws => BaseReads x.bare ws
  | .expr .type x, ws => TypeReads x.bare ws
  | .expr .entry x, ws => EntryReads x ws
  | .expr .operand x, ws => OperandReads x.bare ws
  | .expr .length x, ws => ChainReads isLengthOperator OperandReads x.bare ws
  | .expr .term x, ws => TermReads x.bare ws
  | .expr .constraint x, ws => ConstraintReads x.bare ws
  | .exprs .type xs, ws => ∀ ty : Parser TypeExpr, ty.ReadsTypes ws.length →
    ItemsRead (.op .rightBracket) ty (bareTypes xs) ws
  | .exprs .length xs, ws => ∀ n, ws.length ≤ n →
    ItemsRead (.op .rightParen) (chain isLengthOperator (lengthOperandWithin n)) (bareTypes xs) ws
  | .exprs _ _, _ => True
  | .entries named list, ws =>
    (∀ ty : Parser TypeExpr, ty.ReadsTypes ws.length →
      EntriesRead ty ((bareFields list).flatMap entriesOf) ws) ∧
    bareFields list ≠ [] ∧
    ∀ f ∈ bareFields list, f.names.isEmpty = !named ∧ f = { names := f.names, type := f.type }
  | .params list, ws => (∃ us, ws = .op .leftParen :: us) ∧
    ∀ ty : Parser TypeExpr, ty.ReadsTypes ws.length → ∀ rest,
      (paramsWith ty).Reads (ws ++ rest) (bareFields list) rest
  | .results list, ws => ∀ ty : Parser TypeExpr, ty.ReadsTypes ws.length → ∀ rest,
    EndsType rest → (resultsWith ty).Reads (ws ++ rest) (bareFields list) rest
  | .fields list, ws => ∀ ty : Parser TypeExpr, ty.ReadsTypes ws.length →
    MembersRead (structFieldWith ty) (bareFields list) ws
  | .methods list, ws => ∀ ty : Parser TypeExpr, ty.ReadsTypes ws.length →
    MembersRead (interfaceMemberWith ty) (bareFields list) ws

theorem termReads_type {x : TypeExpr} {w : Lexeme} {us : List Lexeme} (starts : w.startsType = true)
    (h : TypeReads x (w :: us)) : TermReads x (w :: us) := fun _ types _ ends =>
  .isAt (decide_eq_false (ne_of_begins starts rfl)) (types.reads h (Nat.le_refl _) ends)

theorem termReads_tilde {x : TypeExpr} {us : List Lexeme} (h : TypeReads x us) :
    TermReads (.unary "~" x) (.op .tilde :: us) := fun _ types _ ends =>
  .isAt (decide_eq_true rfl) <| .advance fun _ _ =>
    .bind (types.reads h (Nat.le_succ _) ends) (.pure _ _)

/-- A channel whose type begins with an arrow can only be received from. -/
theorem Spells.head_ne_arrow {x : TypeExpr} {ws : List Lexeme} (h : Spells (.expr .type x) ws)
    (other : ∀ y, x ≠ .channel .receive y) : ws.headD .eof ≠ .op .arrow := by
  cases h with
  | channelReceive => exact absurd rfl (other _)
  | typeName base => cases base <;> exact nofun
  | generic base => cases base <;> exact nofun
  | _ => exact nofun

/-- Only a type in parentheses begins with one. -/
theorem Spells.head_ne_paren {x : TypeExpr} {ws : List Lexeme} (h : Spells (.expr .type x) ws)
    (other : ∀ y, x ≠ .paren y) : ws.headD .eof ≠ .op .leftParen := by
  cases h with
  | paren => exact absurd rfl (other _)
  | typeName base => cases base <;> exact nofun
  | generic base => cases base <;> exact nofun
  | _ => exact nofun

/-- What spells a phrase is read as the phrase. -/
theorem Spells.isRead {p : Phrase} {ws : List Lexeme} (h : Spells p ws) : p.IsRead ws := by
  induction h with
  | name => exact ⟨_, [], rfl, fun rest dot => qualifiedFrom_reads_name dot⟩
  | selector =>
    refine ⟨_, _, rfl, fun rest dot => ?_⟩
    exact .isAt (decide_eq_true rfl) <| .advance fun _ _ => .bind .ident (.pure _ _)
  -- Several expressions
  | @one kind x ws h ih =>
    cases kind with
    | type =>
      intro ty types
      obtain ⟨w, us, rfl, begins⟩ := h.opens.exists_cons rfl
      exact itemsRead_one (ne_of_begins begins rfl) nofun fun rest =>
        types.reads ih (Nat.le_refl _) ⟨rfl, nofun⟩
    | length =>
      intro n le
      obtain ⟨w, us, rfl, begins⟩ := h.opens.exists_cons rfl
      exact itemsRead_one (ne_of_begins begins rfl) nofun fun rest =>
        lengths_reads_within ih le ⟨nofun, nofun⟩ rfl
    | _ => trivial
  | @more kind x xs ws vs h k ih ih' =>
    cases kind with
    | type =>
      intro ty types
      rw [List.length_append, List.length_cons] at types
      obtain ⟨w, us, rfl, begins⟩ := h.opens.exists_cons rfl
      exact itemsRead_more (ne_of_begins begins rfl)
        (fun rest => types.reads ih (by omega) ⟨rfl, nofun⟩) (ih' ty (types.mono (by omega)))
    | length =>
      intro n le
      rw [List.length_append, List.length_cons] at le
      obtain ⟨w, us, rfl, begins⟩ := h.opens.exists_cons rfl
      exact itemsRead_more (ne_of_begins begins rfl)
        (fun rest => lengths_reads_within ih (by omega) ⟨nofun, nofun⟩ rfl) (ih' n (by omega))
    | _ => trivial
  -- Types
  | typeName h ih =>
    obtain ⟨name, us, rfl, base⟩ := ih
    refine typeReads_cons fun ty types rest ends => .current fun t here => ?_
    rw [here]
    exact typeNameWith_reads (base rest ends.2) (showsTypeArgs_of_endsType ends)
  | generic h k ih ih' =>
    obtain ⟨name, us, rfl, base⟩ := ih
    obtain ⟨w, vs, rfl, begins⟩ := k.opens.exists_cons rfl
    exact typeReads_generic base begins ih'
  | pointer h ih => exact typeReads_pointer ih
  | slice h ih => exact typeReads_slice ih
  | counted h ih => exact typeReads_counted ih
  | array h k ih ih' =>
    obtain ⟨w, us, rfl, begins⟩ := h.opens.exists_cons rfl
    exact typeReads_array begins ih ih'
  | map h k ih ih' => exact typeReads_map ih ih'
  | channel other h ih =>
    obtain ⟨w, us, rfl, begins⟩ := h.opens.exists_cons rfl
    exact typeReads_channel (h.head_ne_arrow other) nofun ih
  | channelSend h ih => exact typeReads_channelSend ih
  | channelReceive h ih => exact typeReads_channelReceive ih
  | func h k ih ih' => exact typeReads_func ih.2 ih'
  | struct h ih => exact typeReads_struct ih
  | interface h ih => exact typeReads_interface ih
  | paren h ih => exact typeReads_paren ih
  -- Array lengths
  | operandName h ih =>
    obtain ⟨name, us, rfl, base⟩ := ih
    exact operandReads_name base
  | literal => exact operandReads_literal
  | callEmpty h ih =>
    obtain ⟨name, us, rfl, base⟩ := ih
    exact operandReads_callEmpty base
  | call h k ih ih' =>
    obtain ⟨name, us, rfl, base⟩ := ih
    exact operandReads_call base ih'
  | parenLength h ih => exact operandReads_paren ih
  | sign isSign h ih => exact operandReads_sign isSign ih
  | lengthOperand h ih => exact .one ih
  | arithmetic isOp h k ih ih' => exact ih.concat isOp ih'
  -- Constraints
  | termType h ih =>
    obtain ⟨w, us, rfl, begins⟩ := h.opens.exists_cons rfl
    exact termReads_type begins ih
  | tilde h ih => exact termReads_tilde ih
  | constraintTerm h ih => exact ConstraintReads.one ih
  | union h k ih ih' => exact ConstraintReads.union ih ih'
  -- Lists of fields
  | entryType h ih => exact .inr ⟨h, ih⟩
  | variadic h ih => exact .inl ⟨_, _, rfl, rfl, ih⟩
  | lastEntry empty h ih =>
    refine ⟨fun ty types => ?_, nofun, fun f mem => ?_⟩
    · rw [List.length_append] at types
      show EntriesRead ty (entriesOf _ ++ []) _
      rw [List.append_nil]
      exact entriesRead_field _ (types.mono (by omega)) ih
    · rw [List.mem_singleton.1 mem]
      exact ⟨empty, rfl⟩
  | @moreEntries named names x comment fields ws vs empty h k ih ih' =>
    obtain ⟨others, _, plain⟩ := ih'
    obtain ⟨v, vs, rfl, begins⟩ := k.opens.exists_cons rfl
    refine ⟨fun ty types => ?_, nofun, fun f mem => ?_⟩
    · simp only [List.length_append, List.length_cons] at types
      have rest := others ty (types.mono (by rw [List.length_cons]; omega))
      exact entriesRead_fields names (types.mono (by omega)) ih begins rest
    · rcases List.mem_cons.1 mem with rfl | behind
      · exact ⟨empty, rfl⟩
      · exact plain f behind
  | noParams => exact ⟨⟨_, rfl⟩, fun ty _ rest => paramsWith_reads_nil⟩
  | someParams h ih =>
    obtain ⟨reads, some, plain⟩ := ih
    obtain ⟨w, us, rfl, begins⟩ := h.opens.exists_cons rfl
    refine ⟨⟨_, rfl⟩, fun ty types rest => ?_⟩
    simp only [List.length_append, List.length_cons] at types
    exact paramsWith_reads begins (reads ty (types.mono (by rw [List.length_cons]; omega)))
      (fieldsOf_entriesOf some plain)
  | noResults => exact fun ty _ rest ends => resultsWith_reads_nil ends
  | listedResults h ih =>
    obtain ⟨⟨us, rfl⟩, reads⟩ := ih
    exact fun ty types rest _ => resultsWith_reads_params (reads ty types rest)
  | bareResult other h ih =>
    intro ty types rest ends
    have paren := h.head_ne_paren other
    obtain ⟨w, us, rfl, begins⟩ := h.opens.exists_cons rfl
    exact resultsWith_reads_bare begins paren types ih ends
  -- Bodies
  | noFields | noMethods => exact fun ty _ => membersRead_nil
  | @moreFields names x doc comment tag fields ws vs h k ih ih' =>
    intro ty types
    simp only [List.length_append, List.length_cons] at types
    have opens : (Phrase.methods (bareFields fields)).Opens (spellNames names ++ ws) :=
      opens_spellNames _ (fun _ => rfl) (h.opens.imp rfl fun _ h => Bool.or_eq_true_iff.2 (.inl h))
    have some : spellNames names ++ ws ≠ [] := by
      obtain ⟨w, us, rfl, _⟩ := h.opens.exists_cons rfl
      exact List.append_ne_nil_of_right_ne_nil _ nofun
    refine membersRead_cons (List.append_ne_nil_of_left_ne_nil some _) ?_ (fun rest => ?_)
      (ih' ty (types.mono (by omega)))
    · obtain ⟨w, us, same⟩ := List.exists_cons_of_ne_nil some
      rw [same] at opens ⊢
      exact opens
    · rw [List.append_assoc, List.append_assoc]
      exact structFieldWith_reads (types.mono (by omega)) h ih
  | @method name params results doc comment methods us ws vs h k l ih ih' ih'' =>
    intro ty types
    simp only [List.length_append, List.length_cons] at types
    obtain ⟨⟨us, rfl⟩, reads⟩ := ih
    refine membersRead_cons nofun rfl (fun rest => ?_) (ih'' ty (types.mono (by omega)))
    have results := ih' ty (types.mono (by omega)) (.op .semicolon :: rest) ⟨rfl, nofun⟩
    rw [List.append_assoc]
    exact interfaceMemberWith_reads_method (reads ty (types.mono (by omega))) results
  | @element x doc comment methods ws vs h k ih ih' =>
    intro ty types
    simp only [List.length_append, List.length_cons] at types
    have opens : (Phrase.methods (bareFields methods)).Opens ws := h.opens.imp rfl fun _ h => h
    refine membersRead_cons ?_ opens (fun rest => ?_) (ih' ty (types.mono (by omega)))
    · obtain ⟨w, us, rfl, _⟩ := h.opens.exists_cons rfl
      exact nofun
    · exact interfaceMemberWith_reads_element (types.mono (by omega)) h ih

end Typings
