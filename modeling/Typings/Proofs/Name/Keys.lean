import Typings.Proofs.Name.Identifiers

/-!
# Keys can be read back

A key is the name itself, or a literal in single quotes from which the name can be read back: so names with
the same key are the same (`Name.propertyKey_faithful`).
-/

namespace Typings.Name

/-! ## Escaping -/

/-- A character, with a backslash before it if it is the mark. -/
def escapeMark (mark c : Char) : List Char := if c = mark then ['\\', c] else [c]

/-- Escaping is done in two passes: over the backslashes first, and then over the quotes. -/
theorem flatMap_escapeKeyChar (cs : List Char) : cs.flatMap escapeKeyChar =
    (cs.flatMap (escapeMark '\\')).flatMap (escapeMark '\x27') := by
  rw [List.flatMap_assoc]
  refine List.flatMap_congr fun c _ => ?_
  by_cases backslash : c = '\\'
  · subst backslash
    rfl
  · by_cases quote : c = '\x27'
    · subst quote
      rfl
    · simp [escapeKeyChar, escapeMark, backslash, quote]

/-- The text that the inside of a literal in single quotes stands for: a backslash stands for the character
behind it. There is none if a quote has no backslash before it, or if nothing stands behind a backslash. -/
def unescapeKey : List Char → Option (List Char)
  | [] => some []
  | '\\' :: c :: cs => (unescapeKey cs).map (c :: ·)
  | c :: cs => if c = '\\' || c = '\x27' then none else (unescapeKey cs).map (c :: ·)

theorem unescapeKey_escapeKeyChar (c : Char) (cs : List Char) :
    unescapeKey (escapeKeyChar c ++ cs) = (unescapeKey cs).map (c :: ·) := by
  unfold escapeKeyChar
  split
  · rfl
  · next plain =>
    show unescapeKey (c :: cs) = _
    rw [unescapeKey, if_neg plain]
    rintro d ds rfl
    exact absurd (by decide) plain

/-- What has been escaped can be read back. -/
theorem unescapeKey_flatMap (cs : List Char) : unescapeKey (cs.flatMap escapeKeyChar) = some cs := by
  induction cs with
  | nil => rfl
  | cons c cs ih => rw [List.flatMap_cons, unescapeKey_escapeKeyChar, ih, Option.map_some]

/-! ## Keys -/

/-- The key is a literal in single quotes that stands for the name. -/
def QuotedAs (key name : String) : Prop :=
  ∃ inside, key.toList = '\x27' :: inside ++ ['\x27'] ∧ unescapeKey inside = some name.toList

theorem propertyKey_of_isIdentifier {name : String} (identifier : isIdentifier name = true) :
    propertyKey name = name := if_pos identifier

theorem toList_propertyKey {name : String} (quoted : isIdentifier name = false) :
    (propertyKey name).toList = '\x27' :: name.toList.flatMap escapeKeyChar ++ ['\x27'] := by
  rw [propertyKey, quoted, if_neg Bool.false_ne_true, String.toList_ofList]

theorem quotedAs_propertyKey {name : String} (quoted : isIdentifier name = false) :
    QuotedAs (propertyKey name) name :=
  ⟨_, toList_propertyKey quoted, unescapeKey_flatMap _⟩

/-- No identifier begins with a quote. -/
theorem QuotedAs.isIdentifier_eq {key name : String} (h : QuotedAs key name) :
    isIdentifier key = false := by
  obtain ⟨inside, chars, -⟩ := h
  refine Bool.eq_false_iff.2 fun bare => ?_
  obtain ⟨c, cs, chars', begins, -⟩ := isIdentifier_iff.1 bare
  obtain rfl : '\x27' = c := List.head_eq_of_cons_eq (chars.symm.trans chars')
  exact absurd begins (by decide)

theorem QuotedAs.unique {key name other : String} (h : QuotedAs key name) (k : QuotedAs key other) :
    name = other := by
  obtain ⟨inside, chars, read⟩ := h
  obtain ⟨inside', chars', read'⟩ := k
  have same : inside = inside' :=
    List.append_cancel_right (List.tail_eq_of_cons_eq (chars.symm.trans chars'))
  rw [same] at read
  exact String.toList_inj.1 (Option.some.inj (read.symm.trans read'))

/-- A bare key is no literal, and both can be read back. -/
theorem propertyKey_injective : Function.Injective propertyKey := by
  intro a b same
  cases ha : isIdentifier a with
  | true =>
    rw [propertyKey_of_isIdentifier ha] at same
    cases hb : isIdentifier b with
    | true => rwa [propertyKey_of_isIdentifier hb] at same
    | false =>
      have literal : isIdentifier a = false := (same ▸ quotedAs_propertyKey hb).isIdentifier_eq
      exact absurd (literal.symm.trans ha) Bool.false_ne_true
  | false =>
    have quoted : QuotedAs (propertyKey b) a := same ▸ quotedAs_propertyKey ha
    cases hb : isIdentifier b with
    | true =>
      rw [propertyKey_of_isIdentifier hb] at quoted
      exact absurd (quoted.isIdentifier_eq.symm.trans hb) Bool.false_ne_true
    | false => exact quoted.unique (quotedAs_propertyKey hb)

/-- The key of an identifier is the identifier. The key of any other name is a literal in single quotes,
with a backslash before each backslash of the name and then before each quote; no other quote stands
between its ends, and the name is read back from it. So no two names have the same key. -/
theorem propertyKey_faithful :
    (∀ name, isIdentifier name = true ∧ propertyKey name = name ∨
      isIdentifier name = false ∧ QuotedAs (propertyKey name) name ∧
        (propertyKey name).toList = '\x27' ::
          (name.toList.flatMap (escapeMark '\\')).flatMap (escapeMark '\x27') ++ ['\x27']) ∧
    Function.Injective propertyKey := by
  refine ⟨fun name => ?_, propertyKey_injective⟩
  cases identifier : isIdentifier name with
  | true => exact .inl ⟨rfl, propertyKey_of_isIdentifier identifier⟩
  | false =>
    refine .inr ⟨rfl, quotedAs_propertyKey identifier, ?_⟩
    rw [toList_propertyKey identifier, flatMap_escapeKeyChar]

end Typings.Name
