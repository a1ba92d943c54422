import Typings.Proofs.Precedence.Rendered

/-!
# Unions with functions in them

A function type is no operand of a union unless it stands in parentheses. What begins as its
parameters is not read as an operand (`readUnion_params`), so that the rendering of a union
of which one operand is a function is read as that function, with the rest for its result, or not at
all. The rendering of a function type behind `~`, in the form that it has behind a key, is never
read.
-/

namespace Typings

open TsWord TsForm

/-! ## What is not read -/

section

variable {ws us vs rest : List TsWord} {rounds : Nat}

theorem readUnion_of_not_closed (h : ∀ n, readClosed n ws = none) : readUnion rounds ws = none := by
  match rounds with
  | 0 => rfl
  | 1 => rfl
  | n + 2 =>
    rw [readUnion, readOperand, h]
    rfl

theorem readType_of_not_closed (begins : beginsParams ws = false) (h : ∀ n, readClosed n ws = none) :
    readType rounds ws = none := by
  cases rounds with
  | zero => rfl
  | succ n =>
    rw [readType, begins, readUnion_of_not_closed h]
    rfl

/-- The name of a parameter is read as a type, and its colon is left. -/
theorem head?_of_readType_name {n : String} {x : TsForm}
    (read : readType rounds (.name n :: .colon :: ws) = some (x, rest)) :
    rest.head? = some .colon := by
  match rounds with
  | 0 | 1 | 2 | 3 => cases read
  | k + 4 =>
    cases read
    rfl

/-- What goes on as parameters is not read as a type up to a closing parenthesis. -/
theorem head?_ne_of_goesOnAsParams (h : goesOnAsParams ws = true) {x : TsForm}
    (read : readType rounds ws = some (x, rest)) : rest.head? ≠ some .rightParen := by
  unfold goesOnAsParams at h
  split at h
  · rw [readType_of_not_closed rfl fun n => by cases n <;> rfl] at read
    cases read
  · rw [readType_of_not_closed rfl fun n => by cases n <;> rfl] at read
    cases read
  · rw [head?_of_readType_name read]
    exact nofun
  · cases h

/-- What begins as parameters is no operand. -/
theorem readUnion_params (h : beginsParams ws = true) : readUnion rounds ws = none := by
  refine readUnion_of_not_closed fun n => ?_
  unfold beginsParams at h
  split at h
  · next ws =>
    cases n with
    | zero => rfl
    | succ n =>
      rw [readClosed]
      cases read : readType n ws with
      | none => rfl
      | some pair =>
        obtain ⟨x, rest⟩ := pair
        have open' := head?_ne_of_goesOnAsParams h read
        cases rest with
        | nil => rfl
        | cons w ws =>
          have other : w ≠ .rightParen := fun same => open' (congrArg some same)
          show (TsWord.rightParen.skip (w :: ws)).bind _ = none
          rw [skip, if_neg other]
          rfl
  · cases h

/-- Operands are not read on behind a bar where parameters begin. -/
theorem readUnion_operands {xs : List TsForm} (spells : TsSpells (.union xs) us)
    (h : beginsParams vs = true) (enough : 4 * us.length + 3 ≤ rounds) :
    readUnion rounds (us ++ .bar :: vs) = none := by
  generalize hp : TsPhrase.union xs = p at spells
  induction spells generalizing xs rounds <;> cases hp
  case oneOperand x us spells _ =>
    obtain ⟨k, rfl⟩ := Nat.exists_eq_add_of_le' (show 1 ≤ rounds by omega)
    have operand := spells.isRead k (.bar :: vs) (by omega) (by simp)
    rw [readUnion, operand]
    show (readUnion k vs).bind _ = none
    rw [readUnion_params h]
    rfl
  case moreOperands x xs us us' spells _ _ ih =>
    obtain ⟨k, rfl⟩ := Nat.exists_eq_add_of_le' (show 1 ≤ rounds by omega)
    simp only [List.length_append, List.length_cons] at enough
    have operand := spells.isRead k (.bar :: (us' ++ .bar :: vs)) (by omega) (by simp)
    have later : readUnion k (us' ++ .bar :: vs) = none := ih (by omega) rfl
    rw [List.append_assoc, List.cons_append, readUnion, operand]
    show (readUnion k (us' ++ .bar :: vs)).bind _ = none
    rw [later]
    rfl

/-- The words begin as parameters, or they do so behind a bar. -/
def Misleads (ws : List TsWord) : Prop :=
  (∀ rest, beginsParams (ws ++ rest) = true) ∨
    ∃ xs us vs, ws = us ++ .bar :: vs ∧ TsSpells (.union xs) us ∧
      ∀ rest, beginsParams (vs ++ rest) = true

theorem Misleads.append (h : Misleads ws) (more : List TsWord) : Misleads (ws ++ more) := by
  rcases h with begins | ⟨xs, us, vs, rfl, spells, begins⟩
  · refine .inl fun rest => ?_
    rw [List.append_assoc]
    exact begins _
  · refine .inr ⟨xs, us, vs ++ more, by simp, spells, fun rest => ?_⟩
    rw [List.append_assoc]
    exact begins _

theorem Misleads.behind (h : Misleads vs) {xs : List TsForm} (spells : TsSpells (.union xs) us) :
    Misleads (us ++ .bar :: vs) := by
  rcases h with begins | ⟨ys, us', vs, rfl, spells', begins⟩
  · exact .inr ⟨xs, us, vs, rfl, spells, begins⟩
  · exact .inr ⟨xs ++ ys, us ++ .bar :: us', vs, by simp, spells.union_append spells', begins⟩

/-- What misleads is read as a function if it is read at all. -/
theorem Misleads.ofWords (h : Misleads ws) {x : TsForm} (read : TsForm.ofWords ws = some x) :
    ∃ params result, x = .arrow params result := by
  unfold TsForm.ofWords at read
  split at read
  · next y type =>
    cases read
    rcases h with begins | ⟨xs, us, vs, rfl, spells, begins⟩
    · have begins := begins []
      rw [List.append_nil] at begins
      rw [readType, begins, if_pos rfl] at type
      obtain ⟨⟨params, _⟩, _, type⟩ := Option.bind_eq_some_iff.1 type
      obtain ⟨_, _, type⟩ := Option.bind_eq_some_iff.1 type
      obtain ⟨⟨result, _⟩, _, type⟩ := Option.bind_eq_some_iff.1 type
      cases type
      exact ⟨params, result, rfl⟩
    · have begins := begins []
      rw [List.append_nil] at begins
      rw [readType, spells.begins.2, readUnion_operands spells begins ?_] at type
      · cases type
      · rw [List.length_append, List.length_cons]
        omega
  · cases read

/-- A function in the form that it has behind a key is not read. -/
theorem ofWords_signature {xs : List TsForm} (spells : TsSpells (.params xs) ws) (vs : List TsWord) :
    TsForm.ofWords (ws ++ .colon :: vs) = none := by
  have params := spells.isRead (4 * (ws ++ TsWord.colon :: vs).length + 3) (.colon :: vs)
    (by rw [List.length_append, List.length_cons]; omega)
  rw [TsForm.ofWords, readType, spells.begins, if_pos rfl, params]
  rfl

end

/-! ## Constraints -/

namespace TypeExpr

variable {indent : String} {ctx : Context} {room : Nat} {x y : TypeExpr}

/-- The rendering of a type as an operand of a union is read as it is meant. -/
def groupsAsOperand (room : Nat) (x : TypeExpr) : Bool := x.groups room && !(0 < room && x.isFunc)

/-- As an operand of a union, the rendering of the type is read as some form, or it misleads. -/
def RendersAsOperand (indent : String) (ctx : Context) (room : Nat) (x : TypeExpr) : Prop :=
  (TsType.ofExpr ctx room .part x).Reads indent TsType.unionOf (x.grouping room false)
      (x.groupsAsOperand room) ∨
    x.groupsAsOperand room = false ∧ ∃ ws,
      (∀ depth, Gives ((TsType.ofExpr ctx room .part x).text indent depth) ws) ∧ Misleads ws

/-- By itself, the rendering of the type is read as it is meant exactly if `groups` says so. -/
def RendersAlone (indent : String) (ctx : Context) (room : Nat) (x : TypeExpr) : Prop :=
  ∃ ws, (∀ depth, Gives ((TsType.ofExpr ctx room .part x).text indent depth) ws) ∧
    (TsForm.ofWords ws = some (x.grouping room false) ↔ x.groups room = true)

theorem RendersAsOperand.cut (x : TypeExpr) : x.RendersAsOperand indent ctx 0 := by
  have ok : x.groupsAsOperand 0 = x.groups 0 := Bool.and_true _
  refine .inl ?_
  rw [ok]
  exact (reads_cut .part false x).union

theorem groupsAsOperand_of_notFunc (h : x.isFunc = true → room = 0) :
    x.groupsAsOperand room = x.groups room := by
  unfold groupsAsOperand
  cases func : x.isFunc with
  | false => simp
  | true => simp [h func]

theorem groupsAsOperand_of_func (h : x.isFunc = true) (some : room ≠ 0) :
    x.groupsAsOperand room = false := by
  unfold groupsAsOperand
  rw [h, decide_eq_true (Nat.pos_of_ne_zero some)]
  simp

/-- What is read as a form is read as the one that is meant exactly if it is that one. -/
theorem RendersAlone.ofReads {g : Bool}
    (h : (TsType.ofExpr ctx room .part x).Reads indent .type (x.grouping room false) g)
    (same : g = x.groups room) : x.RendersAlone indent ctx room := by
  obtain ⟨f, ⟨ws, gives, spells⟩, _, _, ok⟩ := h
  refine ⟨ws, gives, ?_⟩
  rw [spells.ofWords, Option.some.injEq, ok, same]

theorem Renders.alone (h : x.Renders indent ctx room) : x.RendersAlone indent ctx room :=
  .ofReads (h.type .part rfl rfl) rfl

/-- The texts of a function, by itself and behind a key. -/
theorem Renders.exists_words (h : x.Renders indent ctx room) (func : x.isFunc = true)
    (some : room ≠ 0) : ∃ fs ws vs, TsSpells (.params fs) ws ∧
      (∀ depth, Gives ((TsType.ofExpr ctx room .part x).text indent depth) (ws ++ .arrow :: vs)) ∧
      ∀ depth, Gives ((TsType.ofExpr ctx room .plain x).text indent depth) (ws ++ .colon :: vs) := by
  obtain ⟨params, result, fs, f, arrow, signature, reads, read, _⟩ := h.function func some
  obtain ⟨ws, vs, spells, _, gives, gives'⟩ := TsSpells.ofFunction reads read
  rw [arrow, signature]
  exact ⟨fs, ws, vs, spells, gives, gives'⟩

theorem misleads_of_params {fs : List TsForm} {ws : List TsWord} (h : TsSpells (.params fs) ws)
    (more : List TsWord) : Misleads (ws ++ more) :=
  Misleads.append (.inl fun rest => h.begins rest) more

theorem groupsAsOperand_tilde (room : Nat) (x : TypeExpr) :
    (TypeExpr.unary "~" x).groupsAsOperand (room + 1) = x.groupsAsOperand room := by
  have notFunc : (TypeExpr.unary "~" x).isFunc = false := rfl
  rw [groupsAsOperand, groups, notFunc, Bool.and_false, Bool.not_false, Bool.and_true]
  rfl

theorem Renders.tilde (h : x.Renders indent ctx room) :
    (TypeExpr.unary "~" x).RendersAsOperand indent ctx (room + 1) ∧
      (TypeExpr.unary "~" x).RendersAlone indent ctx (room + 1) := by
  by_cases closed : x.isFunc = true → room = 0
  · have reads := h.union closed .plain rfl rfl
    have ok := groupsAsOperand_of_notFunc closed
    refine ⟨.inl ?_, .ofReads reads.type ?_⟩
    · rw [groupsAsOperand_tilde, ok]
      exact reads
    · rw [groups]
      exact ok.symm
  · obtain ⟨func, some⟩ := Classical.not_imp.1 closed
    obtain ⟨fs, ws, vs, spells, _, gives⟩ := h.exists_words func some
    have ok := groupsAsOperand_of_func func some
    refine ⟨.inr ⟨?_, _, gives, misleads_of_params spells _⟩, _, gives, ?_⟩
    · rw [groupsAsOperand_tilde, ok]
    · have bad : (TypeExpr.unary "~" x).groups (room + 1) = false := ok
      rw [ofWords_signature spells, bad]
      simp

theorem RendersAsOperand.exists_words (h : x.RendersAsOperand indent ctx room) :
    ∃ ws, ∀ depth, Gives ((TsType.ofExpr ctx room .part x).text indent depth) ws := by
  rcases h with ⟨f, ⟨ws, gives, _⟩, _⟩ | ⟨_, ws, gives, _⟩
  · exact ⟨ws, gives⟩
  · exact ⟨ws, gives⟩

theorem groupsAsOperand_union (room : Nat) (x y : TypeExpr) :
    (TypeExpr.binary x "|" y).groupsAsOperand (room + 1) =
      (x.groupsAsOperand room && y.groupsAsOperand room) := by
  have notFunc : (TypeExpr.binary x "|" y).isFunc = false := rfl
  rw [groupsAsOperand, groups, notFunc, Bool.and_false, Bool.not_false, Bool.and_true]
  rfl

/-- A union of two operands, as an operand of another one. -/
theorem RendersAsOperand.either (h : x.RendersAsOperand indent ctx room)
    (h' : y.RendersAsOperand indent ctx room) :
    (TypeExpr.binary x "|" y).RendersAsOperand indent ctx (room + 1) := by
  obtain ⟨vs, gives'⟩ := h'.exists_words
  unfold RendersAsOperand
  rw [groupsAsOperand_union]
  rcases h with reads | ⟨bad, ws, gives, misleads⟩
  · rcases h' with reads' | ⟨bad, vs, gives', misleads⟩
    · exact .inl (reads.either reads' (isWhole_grouping room false x) (isWhole_grouping room false y))
    · obtain ⟨f, ⟨ws, gives, spells⟩, _⟩ := reads
      exact .inr ⟨by rw [bad, Bool.and_false], _, TsType.gives_binary gives gives',
        misleads.behind spells⟩
  · exact .inr ⟨by rw [bad, Bool.false_and], _, TsType.gives_binary gives gives', misleads.append _⟩

theorem RendersAlone.cut (x : TypeExpr) : x.RendersAlone indent ctx 0 :=
  .ofReads (reads_cut .part false x).union.type rfl

/-- Several operands are no function. -/
theorem either_ne_arrow {f g : TsForm} (hf : f.IsWhole) (hg : g.IsWhole) (params : List TsForm)
    (result : TsForm) : TsForm.either f g ≠ .arrow params result := by
  intro same
  have count : (TsForm.either f g).operands.length = 1 := by
    rw [same]
    rfl
  have one := List.length_pos_iff.2 hf.1
  have two := List.length_pos_iff.2 hg.1
  rw [operands_either hf hg, List.length_append] at count
  omega

/-- A union by itself. -/
theorem RendersAsOperand.alone (h : (TypeExpr.binary x "|" y).RendersAsOperand indent ctx (room + 1)) :
    (TypeExpr.binary x "|" y).RendersAlone indent ctx (room + 1) := by
  have notFunc : (TypeExpr.binary x "|" y).isFunc = true → room + 1 = 0 := nofun
  have ok := groupsAsOperand_of_notFunc notFunc
  rcases h with reads | ⟨bad, ws, gives, misleads⟩
  · exact .ofReads reads.type ok
  · refine ⟨ws, gives, ?_⟩
    rw [← ok, bad]
    constructor
    · intro read
      obtain ⟨params, result, arrow⟩ := misleads.ofWords read
      exact absurd arrow (either_ne_arrow (isWhole_grouping room false x)
        (isWhole_grouping room false y) params result)
    · exact nofun

end TypeExpr

section

variable {indent : String} {ctx : Context}

/-- What a term or a constraint says about its renderings, whatever the room. -/
def Phrase.RendersAlone (indent : String) (ctx : Context) : Phrase → Prop
  | .expr .term x | .expr .constraint x =>
    ∀ room, x.RendersAsOperand indent ctx room ∧ x.RendersAlone indent ctx room
  | _ => True

end

end Typings
