import Typings.Proofs.Members.Parts
import Typings.Proofs.Parser.Names
import Typings.Proofs.Token.Scanned

/-!
# Characters that are foreign to names

Names keep free of a character that is in none of them when they are spelled in lower case, quoted as
keys or made from numbers, as long as no such way to spell a name brings it in (`Name.isForeign`): the
slash is such a character, and so are brackets. To be free of such characters is a property that all
words have that are made of words with it (`Name.Stable`).
-/

namespace Typings

namespace Name

/-- The character is in no name, and no spelling of names brings it in: it is not the lower-case form of
a capital, nor a mark that comes with such a form or with quotes. -/
def isForeign (m : Char) : Bool :=
  !beginsIdent m && !continuesIdent m && !m.isDigit &&
    !(['\u0000', '\u0307', '\u03c2', '\\', '\x27'].contains m) &&
    Unicode.capitals.all fun run =>
      m.toNat < run.lower || run.lower + (run.last - run.first) < m.toNat

variable {m : Char}

/-- What `isForeign` says. -/
structure Foreign (m : Char) : Prop where
  begins : beginsIdent m = false
  continues : continuesIdent m = false
  digit : m.isDigit = false
  marks : m ∉ ['\u0000', '\u0307', '\u03c2', '\\', '\x27']
  lower : ∀ run ∈ Unicode.capitals,
    m.toNat < run.lower ∨ run.lower + (run.last - run.first) < m.toNat

/-- The check decides for a character that no name has it and no change of letters makes it. -/
theorem foreign_of_isForeign (h : isForeign m = true) : Foreign m := by
  simp only [isForeign, Bool.and_eq_true, Bool.not_eq_true', List.all_eq_true, Bool.or_eq_true,
    decide_eq_true_eq] at h
  obtain ⟨⟨⟨⟨begins, continues⟩, digit⟩, marks⟩, lower⟩ := h
  exact ⟨begins, continues, digit, by simpa using marks, lower⟩

end Name

namespace Unicode

theorem capitalRun?_bound {n : Nat} {run : CapitalRun} (h : capitalRun? n = some run) :
    run ∈ capitals ∧ n ≤ run.last := by
  have found := Option.eq_some_of_filter_eq_some h
  exact ⟨List.mem_of_find?_eq_some found, by simpa using List.find?_some found⟩

/-- A capital has no foreign character in its lower-case form. -/
theorem not_mem_lowercase {m c : Char} (foreign : Name.Foreign m) (h : c ≠ m) : m ∉ lowercase c := by
  unfold lowercase
  split
  · exact fun mem => h (List.mem_singleton.1 mem).symm
  · next run found =>
    obtain ⟨among, bound⟩ := capitalRun?_bound found
    have apart := foreign.lower run among
    generalize offset : run.lower + (c.toNat - run.first) = n
    have small : m ≠ Char.ofNat n := by
      rintro rfl
      by_cases valid : n.isValidChar
      · have code : (Char.ofNat n).toNat = n := by
          rw [Char.ofNat, dif_pos valid]
          rfl
        omega
      · have zero : Char.ofNat n = '\u0000' := by
          rw [Char.ofNat, dif_neg valid]
          rfl
        refine foreign.marks ?_
        rw [zero]
        exact List.mem_cons_self
    split
    · refine fun mem => (List.mem_cons.1 mem).elim small fun dot => foreign.marks ?_
      rw [List.mem_singleton.1 dot]
      exact List.mem_cons_of_mem _ List.mem_cons_self
    · exact fun mem => small (List.mem_singleton.1 mem)

end Unicode

namespace Name

variable {m : Char}

theorem not_mem_lowerRest (foreign : Foreign m) {cs : List Char} (h : m ∉ cs) :
    m ∉ lowerRun.lowerRest cs := by
  fun_induction lowerRun.lowerRest cs with
  | case1 => exact h
  | case2 =>
    intro mem
    refine foreign.marks ?_
    rw [List.mem_singleton.1 mem]
    decide
  | case3 c other => exact Unicode.not_mem_lowercase foreign (List.ne_of_not_mem_cons h).symm
  | case4 c cs more ih =>
    have first := Unicode.not_mem_lowercase foreign (List.ne_of_not_mem_cons h).symm
    exact List.not_mem_append first (ih (List.not_mem_of_not_mem_cons h))

/-- Lowering letters brings no foreign character in. -/
theorem not_mem_lowerRun (foreign : Foreign m) {cs : List Char} (h : m ∉ cs) : m ∉ lowerRun cs := by
  cases cs with
  | nil => exact h
  | cons c cs =>
    have first := Unicode.not_mem_lowercase foreign (List.ne_of_not_mem_cons h).symm
    exact List.not_mem_append first (not_mem_lowerRest foreign (List.not_mem_of_not_mem_cons h))

/-- A name in camel case has no foreign character, if the name has none. -/
theorem not_mem_camelCase (foreign : Foreign m) {name : String} (h : m ∉ name.toList) :
    m ∉ (camelCase name).toList := by
  have run : m ∉ name.toList.takeWhile Unicode.isCapital :=
    fun mem => h ((List.takeWhile_sublist _).subset mem)
  have rest : m ∉ name.toList.dropWhile Unicode.isCapital :=
    fun mem => h ((List.dropWhile_sublist _).subset mem)
  unfold camelCase
  dsimp only
  generalize name.toList.takeWhile Unicode.isCapital = run at *
  split
  · rw [String.toList_ofList]
    refine List.not_mem_append (List.not_mem_append (not_mem_lowerRun foreign ?_) ?_) rest
    · exact fun mem => run ((List.dropLast_sublist _).subset mem)
    · exact fun mem => run (List.mem_of_getLast? (Option.mem_toList.1 mem))
  · rw [String.toList_ofList]
    exact List.not_mem_append (not_mem_lowerRun foreign run) rest

/-- A property key has no foreign character, if the name has none. -/
theorem not_mem_propertyKey (foreign : Foreign m) {name : String} (h : m ∉ name.toList) :
    m ∉ (propertyKey name).toList := by
  have backslash : m ≠ '\\' := by
    rintro rfl
    exact foreign.marks (by decide)
  have quote : m ≠ '\x27' := by
    rintro rfl
    exact foreign.marks (by decide)
  unfold propertyKey
  split
  · exact h
  · rw [String.toList_ofList]
    refine List.not_mem_append (List.not_mem_cons_of_ne_of_not_mem quote fun mem => ?_)
      fun mem => quote (List.mem_singleton.1 mem)
    obtain ⟨c, inside, escaped⟩ := List.mem_flatMap.1 mem
    refine h ?_
    unfold escapeKeyChar at escaped
    split at escaped
    · rcases List.mem_cons.1 escaped with same | same
      · exact absurd same backslash
      · exact List.mem_singleton.1 same ▸ inside
    · exact List.mem_singleton.1 escaped ▸ inside

theorem not_mem_toString (foreign : Foreign m) (n : Nat) : m ∉ (toString n).toList := fun mem =>
  absurd ((isDigit_of_mem_toString mem).symm.trans foreign.digit) Bool.noConfusion

/-- No scanned name has a foreign character. -/
theorem not_mem_ident (foreign : Foreign m) {n : String} (h : (Lexeme.ident n).IsScanned) :
    m ∉ n.toList := by
  obtain ⟨c, cs, chars, begins, continues⟩ := h
  rw [chars]
  intro mem
  rcases List.mem_cons.1 mem with rfl | behind
  · exact absurd (begins.symm.trans foreign.begins) Bool.noConfusion
  · exact absurd ((List.all_eq_true.1 continues _ behind).symm.trans foreign.continues)
      Bool.noConfusion

/-! ## Words that are made of words -/

/-- A property that words keep however declarations spell them, and when they are put together. -/
structure Stable (good : String → Prop) : Prop where
  empty : good ""
  append : ∀ {a b}, good a → good b → good (a ++ b)
  dot : good "."
  placed : good "_arg"
  number : ∀ n : Nat, good (toString n)
  camelCase : ∀ {name}, good name → good (camelCase name)
  propertyKey : ∀ {name}, good name → good (propertyKey name)

/-- To be without a foreign character is kept by all that is done with names. -/
theorem stable_of_foreign (foreign : Foreign m) (h : m ∉ ['_', 'a', 'r', 'g', '.']) :
    Stable fun text => m ∉ text.toList where
  empty := List.not_mem_nil
  append {a b} ha hb := by
    rw [String.toList_append]
    exact List.not_mem_append ha hb
  dot := fun mem => h (List.mem_singleton.1 mem ▸ (by decide))
  placed := fun mem => h (List.mem_append_left ['.'] mem)
  number := not_mem_toString foreign
  camelCase := not_mem_camelCase foreign
  propertyKey := not_mem_propertyKey foreign

/-- All of several properties. -/
theorem Stable.all {α : Type} {among : α → Prop} {good : α → String → Prop}
    (h : ∀ i, among i → Stable (good i)) : Stable fun text => ∀ i, among i → good i text where
  empty i mem := (h i mem).empty
  append ha hb i mem := (h i mem).append (ha i mem) (hb i mem)
  dot i mem := (h i mem).dot
  placed i mem := (h i mem).placed
  number n i mem := (h i mem).number n
  camelCase word i mem := (h i mem).camelCase (word i mem)
  propertyKey word i mem := (h i mem).propertyKey (word i mem)

namespace Stable

variable {good : String → Prop} (stable : Stable good)

include stable

/-- A style keeps good names good. -/
theorem apply {style : NameStyle} (plain : style = .keep ∨ style = .camel) {name : String}
    (word : good name) : good (style.apply name) := by
  rcases plain with rfl | rfl
  · exact word
  · exact stable.camelCase word

/-- Names of parameters are good, if those of the source are. -/
theorem of_mem_namesAt {i : Nat} {names : List String} (all : ∀ n ∈ names, good n) {name : String}
    (mem : name ∈ TsParam.namesAt i names) : good name := by
  unfold TsParam.namesAt at mem
  split at mem
  · rw [List.mem_singleton.1 mem]
    exact stable.append stable.placed (stable.number i)
  · obtain ⟨j, lt, rfl⟩ := List.mem_mapIdx.1 mem
    unfold TsParam.nameAt
    split
    · exact stable.append (stable.append stable.placed (stable.number i)) (stable.number j)
    · exact all _ (List.getElem_mem lt)

/-- A qualified name is good, if its parts are. -/
theorem qualifiedName (x : TypeExpr) (words : x.WordsIn good) : good x.qualifiedName := by
  cases x with
  | name n => exact words
  | selector x sel =>
    exact stable.append (stable.append (qualifiedName x words.1) stable.dot) words.2
  | _ => exact stable.empty

/-- The name of a type, empty if it has none. -/
theorem name {x : TypeExpr} (words : x.WordsIn good) : good (x.name?.getD "") := by
  cases x with
  | name n => exact words
  | _ => exact stable.empty

/-- The names in a receiver are good, if its words are. -/
theorem receiver {recv : Field} (h : recv.type.WordsIn good) :
    good recv.receiver.1 ∧ ∀ n ∈ recv.receiver.2, good n := by
  have words := h.deref.unparen
  unfold Field.receiver
  split
  · next x args generic =>
    rw [generic] at words
    refine ⟨stable.name words.1, fun n mem => ?_⟩
    obtain ⟨arg, among, name⟩ := List.mem_filterMap.1 mem
    have word := stable.name (typesIn_iff.1 words.2 arg among)
    rwa [name] at word
  · exact ⟨stable.name words, List.forall_mem_nil _⟩

end Stable

end Name

end Typings
