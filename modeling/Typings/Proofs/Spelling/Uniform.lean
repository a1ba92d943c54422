import Typings.Proofs.Spelling.Grammar

/-!
# Named and unnamed lists

The parameter and result lists in a type, wherever they stand in it, and that a spelling has none in
which some entries are named and others are not (`Spells.uniform`).
-/

namespace Typings

/-- Either all fields have names, or none has. -/
def Field.Uniform (fields : List Field) : Prop :=
  (∀ f ∈ fields, f.names = []) ∨ ∀ f ∈ fields, f.names ≠ []

mutual

/-- The parameter lists and the result lists in a type, at any depth. -/
def TypeExpr.signatureLists : TypeExpr → List (List Field)
  | .func params results typeParams =>
    params :: results :: (listsInFields params ++ listsInFields results ++ listsInFields typeParams)
  | .pointer x | .variadic x | .paren x | .unary _ x | .channel _ x | .array x none
  | .selector x _ => x.signatureLists
  | .array x (some size) => x.signatureLists ++ size.signatureLists
  | .map x y | .binary x _ y => x.signatureLists ++ y.signatureLists
  | .struct fields | .interface fields => listsInFields fields
  | .generic x args | .call x args => x.signatureLists ++ listsInTypes args
  | .composite (some x) elts => x.signatureLists ++ listsInTypes elts
  | .composite none elts => listsInTypes elts
  | .name _ | .literal .. | .counted _ | .unknown => []

/-- The parameter lists and the result lists in several types. -/
def listsInTypes : List TypeExpr → List (List Field)
  | [] => []
  | x :: xs => x.signatureLists ++ listsInTypes xs

/-- The parameter lists and the result lists in the types of fields. -/
def listsInFields : List Field → List (List Field)
  | [] => []
  | ⟨_, x, _, _, _⟩ :: fields => x.signatureLists ++ listsInFields fields

end

/-- The lists that a phrase holds; one that is a list in parentheses counts itself. -/
def Phrase.signatureLists : Phrase → List (List Field)
  | .expr _ x => x.signatureLists
  | .exprs _ xs => listsInTypes xs
  | .entries _ list | .params list | .results list => list :: listsInFields list
  | .fields members | .methods members => listsInFields members

theorem Field.uniform_nil : Uniform [] := .inl (List.forall_mem_nil _)

theorem Field.uniform_single (f : Field) : Uniform [f] := by
  by_cases h : f.names = []
  · exact .inl fun g mem => List.mem_singleton.1 mem ▸ h
  · exact .inr fun g mem => List.mem_singleton.1 mem ▸ h

/-- Entries are named or not as their list says. -/
theorem Spells.names_isEmpty {named : Bool} {fields : List Field} {ws : List Lexeme}
    (h : Spells (.entries named fields) ws) : ∀ f ∈ fields, f.names.isEmpty = !named := by
  generalize hp : Phrase.entries named fields = p at h
  induction h generalizing named fields <;> cases hp
  case lastEntry empty _ _ =>
    intro f mem
    rw [List.mem_singleton.1 mem]
    exact empty
  case moreEntries empty _ _ _ ih =>
    intro f mem
    rcases List.mem_cons.1 mem with rfl | behind
    · exact empty
    · exact ih rfl f behind

theorem Spells.uniform_entries {named : Bool} {fields : List Field} {ws : List Lexeme}
    (h : Spells (.entries named fields) ws) : Field.Uniform fields := by
  cases named with
  | true => exact .inr fun f mem empty => by simpa [empty] using h.names_isEmpty f mem
  | false => exact .inl fun f mem => by simpa using h.names_isEmpty f mem

/-- The lists of a function are its own and those inside them. -/
theorem TypeExpr.forall_signatureLists_func {P : List Field → Prop} {params results : List Field}
    (hparams : ∀ fields ∈ (Phrase.params params).signatureLists, P fields)
    (hresults : ∀ fields ∈ (Phrase.results results).signatureLists, P fields) :
    ∀ fields ∈ (TypeExpr.func params results []).signatureLists, P fields := by
  obtain ⟨own, inside⟩ := List.forall_mem_cons.1 hparams
  obtain ⟨own', inside'⟩ := List.forall_mem_cons.1 hresults
  have both := List.forall_mem_append.2 ⟨inside, inside'⟩
  have all := List.forall_mem_append.2 ⟨both, List.forall_mem_nil _⟩
  exact List.forall_mem_cons.2 ⟨own, List.forall_mem_cons.2 ⟨own', all⟩⟩

/-- In what is spelled, no list mixes named and unnamed entries. -/
theorem Spells.uniform {p : Phrase} {ws : List Lexeme} (h : Spells p ws) :
    ∀ fields ∈ p.signatureLists, Field.Uniform fields := by
  induction h with
  | name | selector | literal | noFields | noMethods => exact List.forall_mem_nil _
  | typeName _ ih | pointer _ ih | slice _ ih | channel _ _ ih | channelSend _ ih
  | channelReceive _ ih | struct _ ih | interface _ ih | paren _ ih | operandName _ ih
  | parenLength _ ih | sign _ _ ih | lengthOperand _ ih | termType _ ih | tilde _ ih
  | constraintTerm _ ih | entryType _ ih | variadic _ ih | someParams _ ih
  | listedResults _ ih => exact ih
  | one _ ih | counted _ ih | callEmpty _ ih =>
    exact List.forall_mem_append.2 ⟨ih, List.forall_mem_nil _⟩
  | more _ _ first rest | generic _ _ first rest | call _ _ first rest | map _ _ first rest
  | arithmetic _ _ _ first rest | union _ _ first rest | moreFields _ _ first rest
  | element _ _ first rest => exact List.forall_mem_append.2 ⟨first, rest⟩
  | array _ _ size elt => exact List.forall_mem_append.2 ⟨elt, size⟩
  | func _ _ params results => exact TypeExpr.forall_signatureLists_func params results
  | lastEntry _ _ ih | bareResult _ _ ih =>
    have inside := List.forall_mem_append.2 ⟨ih, List.forall_mem_nil _⟩
    exact List.forall_mem_cons.2 ⟨Field.uniform_single _, inside⟩
  | moreEntries empty spells rest first more =>
    have inside := List.forall_mem_append.2 ⟨first, (List.forall_mem_cons.1 more).2⟩
    exact List.forall_mem_cons.2 ⟨(Spells.moreEntries empty spells rest).uniform_entries, inside⟩
  | noParams | noResults => exact List.forall_mem_singleton.2 Field.uniform_nil
  | method _ _ _ params results rest =>
    exact List.forall_mem_append.2 ⟨TypeExpr.forall_signatureLists_func params results, rest⟩

end Typings
