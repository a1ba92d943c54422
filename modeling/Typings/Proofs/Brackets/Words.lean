import Typings.Proofs.Brackets.Comments
import Typings.Proofs.Name.Characters

/-!
# Words and options without brackets

Names have no bracket in them, and neither have the words that are made of them (`Clean.stable`), nor the
texts that the options put in (`Config.AddsNoBracket`). A source type is clean if that is true of all its
words, and of its comments.
-/

namespace Typings

/-! ## Words -/

/-- Neither a bracket nor `=` stands in the word. -/
def Clean (word : String) : Prop := FreeOf ('=' :: bracketChars) word

instance : DecidablePred Clean := fun word => inferInstanceAs (Decidable (FreeOf _ word))

namespace Clean

variable {word : String}

/-- Brackets are in no name. -/
theorem foreign {m : Char} (mark : m ∈ '=' :: bracketChars) :
    Name.Foreign m ∧ m ∉ ['_', 'a', 'r', 'g', '.'] := by
  have all : ('=' :: bracketChars).all (fun m =>
      Name.isForeign m && !(['_', 'a', 'r', 'g', '.'].contains m)) = true := by
    decide +kernel
  obtain ⟨foreign, apart⟩ := Bool.and_eq_true_iff.1 (List.all_eq_true.1 all m mark)
  exact ⟨Name.foreign_of_isForeign foreign, by simpa using apart⟩

/-- To be clean is kept by all that is done with names. -/
theorem stable : Name.Stable Clean :=
  .all fun _ mark => Name.stable_of_foreign (foreign mark).1 (foreign mark).2

/-- Scanned names are clean. -/
theorem ofIdent (h : (Lexeme.ident word).IsScanned) : Clean word :=
  fun _ mark => Name.not_mem_ident (foreign mark).1 h

theorem bracketless (h : Clean word) : Bracketless word :=
  fun m bracket => h m (List.mem_cons_of_mem _ bracket)

theorem sealed (h : Clean word) : Sealed word :=
  ⟨h.bracketless.closed, fun last => h '=' List.mem_cons_self (List.mem_of_getLast? last)⟩

end Clean

/-! ## Options -/

/-- The options bring no brackets in: their texts have none, names are kept or begun in lower case, and
no text of a mapping ends in `=`, so that none makes an arrow with the `>` behind it. -/
structure Config.AddsNoBracket (config : Config) : Prop where
  indent : Bracketless config.indent
  startModifier : Bracketless config.startModifier
  heading : Bracketless config.heading
  mappings : ∀ entry ∈ config.mappings.entries,
    Bracketless entry.2 ∧ entry.2.toList.getLast? ≠ some '='
  fieldNames : config.fieldNames = .keep ∨ config.fieldNames = .camel
  methodNames : config.methodNames = .keep ∨ config.methodNames = .camel

namespace Config.AddsNoBracket

variable {config : Config}

/-- The texts of mappings are sealed. -/
theorem mapped (h : config.AddsNoBracket) {entry : String × String}
    (mem : entry ∈ config.mappings.entries) : Sealed entry.2 :=
  ⟨(h.mappings entry mem).1.closed, (h.mappings entry mem).2⟩

/-- The names in scope do not matter. -/
theorem within {ctx : Context} (h : ctx.config.AddsNoBracket) (names : List String) :
    (ctx.within names).config.AddsNoBracket := h

end Config.AddsNoBracket

/-! ## Source types -/

/-- No word of the type has a bracket or `=` in it, and no comment in it a bracket. -/
structure TypeExpr.IsClean (x : TypeExpr) : Prop where
  words : x.WordsIn Clean
  remarks : ∀ r ∈ x.remarks, r.Bracketless

/-- The same of a field: of its names, its type, and what is said about it. -/
structure Field.IsClean (f : Field) : Prop where
  names : ∀ n ∈ f.names, Clean n
  type : f.type.IsClean
  doc : ∀ line ∈ docOf f.doc, Bracketless line
  note : Bracketless (noteOf f.comment)

theorem TypeExpr.IsClean.deref {x : TypeExpr} (h : x.IsClean) : x.deref.IsClean :=
  ⟨h.words.deref, by cases x <;> exact h.remarks⟩

/-- Fields with clean words, and with comments without brackets, are clean in all their parts. -/
theorem Field.isClean {fs : List Field} (words : FieldsIn Clean fs)
    (remarks : ∀ r ∈ remarksOfFields fs, r.Bracketless) : ∀ f ∈ fs, f.IsClean := by
  intro f mem
  obtain ⟨names, type⟩ := fieldsIn_iff.1 words f mem
  obtain ⟨doc, inside, note⟩ := forall_remarksOfFields remarks mem
  exact ⟨names, ⟨type, inside⟩, bracketless_docOf doc, bracketless_noteOf note⟩

end Typings
