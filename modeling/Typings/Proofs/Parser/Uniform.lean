import Typings.Proofs.Parser.Names
import Typings.Proofs.Spelling.Lossless

/-!
# Named and unnamed lists in what is parsed

In a parsed declaration, no parameter list and no result list mixes entries with names and entries
without, at whatever depth in a type it stands (`File.uniform_of_parse`).
-/

namespace Typings

/-- The parameter lists and the result lists of a declaration, at any depth in its types; the
constraints of its type parameters aside. -/
def Decl.signatureLists : Decl → List (List Field)
  | .typeSpec spec => spec.type.signatureLists
  | .func decl => (TypeExpr.func decl.params decl.results []).signatureLists
  | .unknown => []

/-- No list of the declaration mixes named and unnamed entries. -/
def Decl.Uniform (d : Decl) : Prop := ∀ fields ∈ d.signatureLists, Field.Uniform fields

namespace Parser.Yields

/-- All identifiers are good. -/
private abbrev anyName (_ : String) : Prop := True

variable {α β : Type} {post : α → Prop} {p : Parser α}

/-- What a parser gives has uniform lists if it is spelled. -/
theorem uniform (h : p.Yields anyName post) {phrase : α → Phrase}
    (sound : ∀ {c c' : Cursor} {x : α}, c.IsEnded → p c = .ok (x, c') → ∃ ws, Spells (phrase x) ws) :
    p.Yields anyName fun x => ∀ fields ∈ (phrase x).signatureLists, Field.Uniform fields := by
  intro c c' x run names
  obtain ⟨ws, spells⟩ := sound names.ended run
  exact ⟨(h c c' x run names).1, spells.uniform⟩

theorem type_uniform : Parser.type.Yields anyName fun x =>
    ∀ fields ∈ (Phrase.expr .type x).signatureLists, Field.Uniform fields := by
  refine (type trivial).uniform fun ended run => ?_
  obtain ⟨_, -, ws, spells, -⟩ := type_sound.sound ended run
  exact ⟨ws, spells⟩

theorem params_uniform : (Parser.paramsWith Parser.type).Yields anyName fun fields =>
    ∀ list ∈ (Phrase.params fields).signatureLists, Field.Uniform list := by
  refine (fieldListWith trivial (type trivial) _ _ false).uniform fun ended run => ?_
  obtain ⟨_, -, ws, spells, -⟩ := paramsWith_sound type_sound.sound ended run
  exact ⟨ws, spells⟩

theorem results_uniform : (Parser.resultsWith Parser.type).Yields anyName fun fields =>
    ∀ list ∈ (Phrase.results fields).signatureLists, Field.Uniform list := by
  refine (resultsWith trivial (type trivial)).uniform fun ended run => ?_
  obtain ⟨_, ws, -, spells, -⟩ := resultsWith_sound type_sound ended run
  exact ⟨ws, spells⟩

theorem typeSpec_uniform (doc : Option CommentGroup) :
    (Parser.typeSpec doc).Yields anyName fun spec => (Decl.typeSpec spec).Uniform := by
  rw [typeSpec_eq]
  refine ident.bind fun name _ => ?_
  refine (optional (typeParams trivial) (List.forall_mem_nil _)).bind fun params _ => ?_
  refine ask fun isAlias => after ?_ fun _ => ?_
  · cases isAlias with
    | true => exact Framed.moves (.advance fun _ _ _ => .pure _)
    | false => exact (Framed.pure ()).moves
  · exact type_uniform.bind fun x uniform => commentBehind fun _ => pure uniform

theorem funcDeclHead_uniform :
    Parser.funcDeclHead.Yields anyName fun decl => (Decl.func decl).Uniform := by
  refine ask fun doc => expect fun _ => ?_
  refine (optional (someReceiver trivial) fun f mem => (Option.not_mem_none f mem).elim).bind
    fun recv _ => ident.bind fun name _ => ?_
  refine (optional (typeParams trivial) (List.forall_mem_nil _)).bind fun typeParams _ => ?_
  refine params_uniform.bind fun params uniform => results_uniform.bind fun results uniform' => ?_
  refine after (Framed.moves (.optional (current_lexeme_within _) passBlock_framed ())) fun _ => ?_
  exact pure (TypeExpr.forall_signatureLists_func uniform uniform')

end Parser.Yields

/-- In a parsed declaration, no list mixes named and unnamed entries. -/
theorem File.uniform_of_parse {source : String} {file : File} (h : File.parse source = .ok file) :
    ∀ d ∈ file.decls, d.Uniform := by
  obtain ⟨l, c, -, run⟩ := Parser.run_eq_ok.1 h
  have uniform := Parser.Yields.file Parser.Yields.typeSpec_uniform Parser.Yields.funcDeclHead_uniform
  exact (uniform _ c file run ⟨Cursor.isEnded_ofLayout l, fun _ => trivial⟩).2

end Typings
