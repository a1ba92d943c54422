import Typings.Proofs.Parser.Reads
import Typings.Proofs.Spelling.Entries

/-!
# What a spelling shows from its start

The parser chooses its way by the first lexemes of what stands ahead: `Spells.opens` tells which
they can be for each phrase. In one place it looks further, for the bracket that closes the first
one; the brackets inside a spelling are paired (`Spells.balanced`), so that it finds the right one.
-/

namespace Typings

open Typings.Parser (isSign)

/-! ## First lexemes -/

/-- A lexeme with which an array length may begin. -/
def Lexeme.startsLength : Lexeme → Bool
  | .literal .. | .ident _ | .op .leftParen => true
  | w => isSign w

namespace Phrase

/-- The spelling of the phrase may have no lexemes. -/
def mayBeEmpty : Phrase → Bool
  | .results _ | .fields _ | .methods _ => true
  | _ => false

/-- A lexeme with which an expression of this kind may begin. -/
def beginsExpr : ExprKind → Lexeme → Bool
  | .base, w => w.isIdent
  | .type, w => w.startsType
  | .entry, w => w.startsType || w = .op .ellipsis
  | .operand, w | .length, w => w.startsLength
  | .term, w | .constraint, w => w.startsType || w = .op .tilde

/-- A lexeme with which the phrase may begin. -/
def begins : Phrase → Lexeme → Bool
  | .expr kind _, w | .exprs kind _, w => beginsExpr kind w
  | .entries .., w => beginsExpr .entry w
  | .params _, w => w = .op .leftParen
  | .results _, w | .fields _, w => w.startsType
  | .methods _, w => beginsExpr .constraint w

/-- Some lexemes begin as the phrase may. -/
def Opens (p : Phrase) : List Lexeme → Prop
  | [] => p.mayBeEmpty = true
  | w :: _ => p.begins w = true

/-- A phrase that begins with another one begins as that does. -/
theorem Opens.append {p q : Phrase} {ws : List Lexeme} (vs : List Lexeme) (h : q.Opens ws)
    (some : q.mayBeEmpty = false) (same : ∀ w, q.begins w = true → p.begins w = true) :
    p.Opens (ws ++ vs) := by
  cases ws with
  | nil => exact absurd h (by rw [Opens, some]; decide)
  | cons w ws => exact same w h

/-- A phrase opens as another if it begins with no word that the other does not. -/
theorem Opens.imp {p q : Phrase} {ws : List Lexeme} (h : q.Opens ws) (some : q.mayBeEmpty = false)
    (same : ∀ w, q.begins w = true → p.begins w = true) : p.Opens ws := by
  have grown := h.append [] some same
  rw [List.append_nil] at grown
  exact grown

/-- A phrase that is never empty opens with a word of its own. -/
theorem Opens.exists_cons {p : Phrase} {ws : List Lexeme} (h : p.Opens ws)
    (some : p.mayBeEmpty = false) : ∃ w us, ws = w :: us ∧ p.begins w = true := by
  cases ws with
  | nil => exact absurd h (by rw [Opens, some]; decide)
  | cons w us => exact ⟨w, us, rfl, h⟩

end Phrase

theorem Lexeme.startsType_of_isIdent {w : Lexeme} (h : w.isIdent = true) : w.startsType = true := by
  cases w with
  | ident => rfl
  | _ => cases h

theorem Lexeme.startsLength_of_isIdent {w : Lexeme} (h : w.isIdent = true) :
    w.startsLength = true := by
  cases w with
  | ident => rfl
  | _ => cases h

theorem Lexeme.startsLength_of_isSign {w : Lexeme} (h : isSign w = true) :
    w.startsLength = true := by
  unfold startsLength
  split
  · rfl
  · rfl
  · rfl
  · exact h

/-- Names before a phrase open it, if it may begin with a name. -/
theorem opens_spellNames {p : Phrase} {ws : List Lexeme} (names : List String)
    (name : ∀ n, p.begins (.ident n) = true) (h : p.Opens ws) :
    p.Opens (spellNames names ++ ws) := by
  cases names with
  | nil => exact h
  | cons n names =>
    rw [spellNames_cons]
    exact name n

/-- A spelling begins as its phrase may. -/
theorem Spells.opens {p : Phrase} {ws : List Lexeme} (h : Spells p ws) : p.Opens ws := by
  induction h with
  | name | selector | pointer | slice | counted | array | map | channel | channelSend
  | channelReceive | func | struct | interface | paren | literal | parenLength | tilde | variadic
  | noParams | someParams | noResults | noFields | noMethods | method => rfl
  | sign sign _ _ => exact Lexeme.startsLength_of_isSign sign
  | typeName _ ih => exact ih.imp rfl fun _ => Lexeme.startsType_of_isIdent
  | operandName _ ih => exact ih.imp rfl fun _ => Lexeme.startsLength_of_isIdent
  | one _ ih | lengthOperand _ ih | constraintTerm _ ih => exact ih.imp rfl fun _ h => h
  | termType _ ih | entryType _ ih => exact ih.imp rfl fun _ h => Bool.or_eq_true_iff.2 (.inl h)
  | more _ _ ih _ | arithmetic _ _ _ ih _ | union _ _ ih _ => exact ih.append _ rfl fun _ h => h
  | generic _ _ ih _ =>
    rw [List.append_assoc]
    exact ih.append _ rfl fun _ => Lexeme.startsType_of_isIdent
  | callEmpty _ ih => exact ih.append _ rfl fun _ => Lexeme.startsLength_of_isIdent
  | call _ _ ih _ =>
    rw [List.append_assoc]
    exact ih.append _ rfl fun _ => Lexeme.startsLength_of_isIdent
  | lastEntry _ _ ih => exact opens_spellNames _ (fun _ => rfl) (ih.imp rfl fun _ h => h)
  | moreEntries _ _ _ ih _ =>
    rw [List.append_assoc]
    exact opens_spellNames _ (fun _ => rfl) (ih.append _ rfl fun _ h => h)
  | listedResults _ ih =>
    refine ih.imp rfl fun w h => ?_
    rw [show w = .op .leftParen from of_decide_eq_true h]
    rfl
  | bareResult _ _ ih => exact ih.imp rfl fun _ h => h
  | moreFields _ _ ih _ =>
    rw [List.append_assoc, List.append_assoc]
    exact opens_spellNames _ (fun _ => rfl) (ih.append _ rfl fun _ h => h)
  | element _ _ ih _ => exact ih.append _ rfl fun _ h => h

/-! ## Brackets -/

/-- The square brackets of some lexemes are paired among themselves: to look for a bracket that
closes an earlier one is to look behind them. -/
def Balanced (ws : List Lexeme) : Prop :=
  ∀ (depth : Int) (vs : List Lexeme), 1 ≤ depth →
    closesAheadOfType depth (ws ++ vs) = closesAheadOfType depth vs

namespace Balanced

theorem nil : Balanced [] := fun _ _ _ => rfl

/-- What is balanced stays so before what is balanced. -/
theorem append {us ws : List Lexeme} (h : Balanced us) (k : Balanced ws) : Balanced (us ++ ws) := by
  intro depth vs le
  rw [List.append_assoc, h depth _ le, k depth _ le]

/-- A word other than a bracket leaves the balance. -/
theorem cons {w : Lexeme} {ws : List Lexeme} (opening : w ≠ .op .leftBracket)
    (closing : w ≠ .op .rightBracket) (h : Balanced ws) : Balanced (w :: ws) := by
  intro depth vs le
  rw [List.cons_append, closesAheadOfType.eq_def]
  split
  · next same => cases same
  · next same => exact absurd (List.cons.inj same).1 opening
  · next same => exact absurd (List.cons.inj same).1 closing
  · next same =>
    obtain ⟨_, rfl⟩ := List.cons.inj same
    exact h depth vs le

theorem brackets {ws : List Lexeme} (h : Balanced ws) :
    Balanced (.op .leftBracket :: ws ++ [.op .rightBracket]) := by
  intro depth vs le
  have deeper : depth + 1 ≠ 1 := by omega
  rw [List.append_assoc, List.cons_append, closesAheadOfType, h _ _ (by omega), List.cons_append,
    closesAheadOfType, if_neg deeper, Int.add_sub_cancel]
  rfl

theorem spellNames (names : List String) : Balanced (spellNames names) := by
  cases names with
  | nil => exact nil
  | cons n names =>
    rw [spellNames_cons]
    refine cons nofun nofun ?_
    induction names with
    | nil => exact nil
    | cons n names ih => exact cons nofun nofun (cons nofun nofun ih)

theorem spellTag (tag : Option String) : Balanced (spellTag tag) := by
  cases tag with
  | none => exact nil
  | some => exact cons nofun nofun nil

end Balanced

/-- A bracket around something is closed right behind it. -/
theorem Balanced.closes {ws : List Lexeme} (h : Balanced ws) (vs : List Lexeme) :
    closesAheadOfType 0 (.op .leftBracket :: ws ++ .op .rightBracket :: vs) =
      (vs.headD .eof).startsType := by
  rw [List.cons_append, closesAheadOfType, Int.zero_add, h 1 _ (by omega), closesAheadOfType,
    if_pos rfl]

/-- A spelling has its brackets paired. -/
theorem Spells.balanced {p : Phrase} {ws : List Lexeme} (h : Spells p ws) : Balanced ws := by
  induction h with
  | name | literal => exact .cons nofun nofun .nil
  | selector => exact .cons nofun nofun (.cons nofun nofun (.cons nofun nofun .nil))
  | one _ ih | typeName _ ih | operandName _ ih | lengthOperand _ ih | termType _ ih
  | constraintTerm _ ih | entryType _ ih | listedResults _ ih | bareResult _ _ ih => exact ih
  | pointer _ ih | channel _ _ ih | tilde _ ih | variadic _ ih => exact .cons nofun nofun ih
  | channelSend _ ih | channelReceive _ ih => exact .cons nofun nofun (.cons nofun nofun ih)
  | noParams => exact .cons nofun nofun (.cons nofun nofun .nil)
  | noResults | noFields | noMethods => exact .nil
  | slice _ ih => exact (Balanced.brackets .nil).append ih
  | counted _ ih => exact (Balanced.brackets (.cons (w := .op .ellipsis) nofun nofun .nil)).append ih
  | more _ _ first rest | union _ _ first rest | element _ _ first rest =>
    exact first.append (.cons nofun nofun rest)
  | func _ _ first rest => exact .cons nofun nofun (first.append rest)
  | paren _ ih | parenLength _ ih | someParams _ ih =>
    exact .cons nofun nofun (ih.append (.cons nofun nofun .nil))
  | struct _ ih | interface _ ih =>
    exact .cons nofun nofun (.cons nofun nofun (ih.append (.cons nofun nofun .nil)))
  | callEmpty _ ih => exact ih.append (.cons nofun nofun (.cons nofun nofun .nil))
  | call _ _ first rest =>
    have args := rest.append (Balanced.nil.cons (w := .op .rightParen) nofun nofun)
    rw [List.append_assoc]
    exact first.append (args.cons nofun nofun)
  | generic _ _ first rest =>
    simpa only [List.append_assoc] using first.append rest.brackets
  | array _ _ size elt =>
    simpa only [List.append_assoc, List.cons_append, List.nil_append] using
      size.brackets.append elt
  | map _ _ key value =>
    have whole := key.brackets.append value
    simp only [List.append_assoc, List.cons_append, List.nil_append] at whole ⊢
    exact .cons nofun nofun whole
  | sign sign _ ih =>
    refine .cons ?_ ?_ ih
    · exact fun same => absurd (same ▸ sign) (by decide)
    · exact fun same => absurd (same ▸ sign) (by decide)
  | arithmetic op _ _ first rest =>
    refine first.append (.cons ?_ ?_ rest)
    · exact fun same => absurd (same ▸ op) (by decide)
    · exact fun same => absurd (same ▸ op) (by decide)
  | lastEntry _ _ ih => exact (Balanced.spellNames _).append ih
  | moreEntries _ _ _ first rest =>
    exact ((Balanced.spellNames _).append first).append (.cons nofun nofun rest)
  | moreFields _ _ first rest =>
    exact (((Balanced.spellNames _).append first).append (Balanced.spellTag _)).append
      (.cons nofun nofun rest)
  | method _ _ _ params results rest =>
    exact .append (.append (.cons nofun nofun params) results) (.cons nofun nofun rest)

end Typings
