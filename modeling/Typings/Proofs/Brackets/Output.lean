import Typings.Proofs.Brackets.Types
import Typings.Proofs.Comments.Inert

/-!
# Output is closed

If neither the comments of a source nor the options have brackets, then what it is rendered as is closed
(`Rendering.closed_text`): every declaration is, and they stand one below the other. So is each type on its
own, in whatever slot.
-/

namespace Typings

/-! ## Declarations -/

section

variable {ctx : Context}

/-- No word of the declaration has a bracket or `=` in it, and no comment in it a bracket. -/
structure Decl.IsClean (d : Decl) : Prop where
  words : d.WordsIn Clean
  remarks : ∀ r ∈ d.remarks, r.Bracketless

/-- A modifier brings no bracket, if it has none. -/
theorem bracketless_modifierText {modifier : String} (h : Bracketless modifier) :
    Bracketless (modifierText modifier) := by
  unfold modifierText
  split
  · exact .empty
  · exact h.append (by decide)

theorem sealed_typeParamsText {names : List String} (h : ∀ n ∈ names, Clean n) :
    Sealed (typeParamsText names) := by
  unfold typeParamsText
  split
  · exact .empty
  · refine (by decide : Frames '<' '>' "<" ">").sealed ?_
    exact .intercalate (by decide) fun n mem => (h n mem).sealed

namespace TsDecl

variable {indent modifier name : String} {doc params : List String}

/-- An interface is closed if its members are. -/
theorem closed_interface (modifies : Bracketless modifier) (above : ∀ line ∈ doc, Bracketless line)
    (word : Clean name) (words : ∀ n ∈ params, Clean n) {bases : List TsType} {members : List TsMember}
    (extending : ∀ x ∈ bases, Sealed (x.text indent 0))
    (inside : ∀ m ∈ members, Sealed (m.block indent 1)) :
    Closed ((interface doc name params bases members).text indent modifier) := by
  have docs := bracketless_docBlock Bracketless.empty above
  have front := docs.append ((bracketless_modifierText modifies).append (by decide : Bracketless "interface "))
  have extended : Closed (extendsText indent bases) := by
    unfold extendsText
    split
    · exact .empty
    · exact .append (by decide) (sealed_textsOfTypes extending).closed
  have head := ((front.append word.bracketless).closed.append (sealed_typeParamsText words).closed).append
    extended
  have body := (by decide : Frames '\x7b' '\x7d' " \x7b\n" "\x7d\n").sealed (sealed_textOfMembers inside)
  have whole := head.append body.closed
  simp only [← String.append_assoc] at whole
  exact whole

/-- A type synonym is closed if its type is. -/
theorem closed_synonym (modifies : Bracketless modifier) (above : ∀ line ∈ doc, Bracketless line)
    (word : Clean name) (words : ∀ n ∈ params, Clean n) {type : TsType} {note : String}
    (shown : Sealed (type.text indent 0)) (behind : Bracketless note) :
    Closed ((synonym doc name params type note).text indent modifier) := by
  have docs := bracketless_docBlock Bracketless.empty above
  have front := docs.append ((bracketless_modifierText modifies).append (by decide : Bracketless "type "))
  have head := (front.append word.bracketless).closed.append (sealed_typeParamsText words).closed
  have whole := ((head.append (by decide : Closed " = ")).append shown.closed).append
    (sealed_lineEndText behind).closed
  simp only [← String.append_assoc] at whole
  exact whole

/-- An interface that is a function. -/
theorem closed_call (blank : Bracketless indent) (modifies : Bracketless modifier)
    (above : ∀ line ∈ doc, Bracketless line) (word : Clean name) (words : ∀ n ∈ params, Clean n)
    {lines : List String} {key note : String} {type : TsType}
    (inside : ∀ line ∈ lines, Bracketless line) (member : Bracketless key)
    (shown : Sealed (type.text indent 1)) (behind : Bracketless note) :
    Closed ((interface doc name params [] [.call lines key type note]).text indent modifier) :=
  closed_interface modifies above word words (List.forall_mem_nil _) <|
    List.forall_mem_singleton.2 (TsMember.sealed_block blank inside member shown behind)

/-- The text of the declaration under the options is closed. -/
def IsClosed (config : Config) (d : TsDecl) : Prop := Closed (d.text config.indent config.startModifier)

/-- Each base is sealed. -/
theorem sealed_basesOf (adds : ctx.config.AddsNoBracket) {fields : List Field}
    (clean : ∀ f ∈ fields, f.IsClean) :
    ∀ x ∈ basesOf ctx fields, Sealed (x.text ctx.config.indent 0) := by
  unfold basesOf Field.visibleBases
  rw [List.map_map]
  exact List.forall_mem_map.2 fun f visible =>
    rendersSealed adds ctx.room .base 0 f.type (clean f (List.mem_filter.1 visible).1).type

/-- Whatever form the declaration has. -/
theorem closed_of_rendersTo (adds : ctx.config.AddsNoBracket) {d : Decl} {t : TsDecl} (clean : d.IsClean)
    (form : d.RendersTo ctx t) : t.IsClosed ctx.config := by
  cases form with
  | @struct spec fields visible form =>
    obtain ⟨word, names, words⟩ := clean.words
    obtain ⟨doc, inside, -⟩ := TypeSpec.forall_remarks clean.remarks
    have above := bracketless_docOf doc
    rw [form] at words inside
    have inner := adds.within (Field.allNames spec.typeParams)
    have fields := Field.isClean words inside
    exact closed_interface adds.startModifier above word names (sealed_basesOf inner fields)
      ((rendersSealed inner ctx.room).structMembers inner fields)
  | @interface spec methods visible form =>
    obtain ⟨word, names, words⟩ := clean.words
    obtain ⟨doc, inside, -⟩ := TypeSpec.forall_remarks clean.remarks
    have above := bracketless_docOf doc
    rw [form] at words inside
    have inner := adds.within (Field.allNames spec.typeParams)
    have methods := Field.isClean words inside
    exact closed_interface adds.startModifier above word names (sealed_basesOf inner methods)
      ((rendersSealed inner ctx.room).interfaceMembers inner methods)
  | callable visible form =>
    obtain ⟨word, names, words⟩ := clean.words
    obtain ⟨doc, inside, note⟩ := TypeSpec.forall_remarks clean.remarks
    have above := bracketless_docOf doc
    have behind := bracketless_noteOf note
    rw [form] at words inside
    exact closed_call adds.indent adds.startModifier above word names (List.forall_mem_nil _) .empty
      (rendersSealed (adds.within _) _ .plain 1 _ ⟨words, inside⟩) behind
  | synonym =>
    obtain ⟨word, names, words⟩ := clean.words
    obtain ⟨doc, inside, note⟩ := TypeSpec.forall_remarks clean.remarks
    have above := bracketless_docOf doc
    have behind := bracketless_noteOf note
    exact closed_synonym adds.startModifier above word names
      (rendersSealed (adds.within _) _ .plain 0 _ ⟨words, inside⟩) behind
  | method owner =>
    obtain ⟨word, names, words, receiver⟩ := clean.words
    obtain ⟨doc, inside⟩ := FuncDecl.forall_remarks clean.remarks
    have above := bracketless_docOf doc
    obtain ⟨ownerName, params⟩ := Clean.stable.receiver (receiver _ owner)
    have key := Clean.stable.propertyKey (Clean.stable.apply adds.methodNames word)
    exact closed_call adds.indent adds.startModifier (List.forall_mem_nil _) ownerName params above
      (Clean.bracketless key) (rendersSealed (adds.within _) _ .plain 1 _ ⟨words, inside⟩) .empty
  | function =>
    obtain ⟨word, names, words, -⟩ := clean.words
    obtain ⟨doc, inside⟩ := FuncDecl.forall_remarks clean.remarks
    have above := bracketless_docOf doc
    exact closed_call adds.indent adds.startModifier above word names (List.forall_mem_nil _) .empty
      (rendersSealed (adds.within _) _ .plain 1 _ ⟨words, inside⟩) .empty

/-- A declaration with clean words is rendered, and closed. -/
theorem closed_ofDecl (adds : ctx.config.AddsNoBracket) {d : Decl} (clean : d.IsClean) :
    ∃ rendered, ofDecl ctx d = .ok rendered ∧ ∀ t ∈ rendered, t.IsClosed ctx.config := by
  obtain ⟨rendered, run, forms⟩ := d.exists_rendered ctx clean.words.known
  exact ⟨rendered, run, fun t mem => closed_of_rendersTo adds clean (forms t mem)⟩

/-- Clean declarations are rendered, and each as a closed text. -/
theorem closed_ofDecls (adds : ctx.config.AddsNoBracket) {ds : List Decl} (clean : ∀ d ∈ ds, d.IsClean) :
    ∃ rendered, ofDecls ctx ds = .ok rendered ∧ ∀ t ∈ rendered, t.IsClosed ctx.config :=
  forall_ofDecls fun d mem => closed_ofDecl adds (clean d mem)

end TsDecl

end

/-! ## Files -/

/-- The interface of all functions is closed. -/
theorem closed_dictionaryText {modifier : String} (h : Bracketless modifier) :
    Closed (dictionaryText modifier) := by
  have front := ((bracketless_modifierText h).append (by decide : Bracketless "type ")).append
    (by decide : Bracketless dictionaryName)
  exact front.closed.append (by decide)

/-- A heading without brackets is closed. -/
theorem closed_headingText {heading : String} (h : Bracketless heading) :
    ∀ text ∈ (headingText heading).toList, Closed text := by
  intro text mem
  unfold headingText at mem
  split at mem
  · cases mem
  · rw [List.mem_singleton.1 mem, String.ofList_append]
    refine Closed.append (Bracketless.closed fun m bracket inside => ?_) (by decide)
    rw [String.toList_ofList] at inside
    exact h m bracket (Text.mem_of_mem_dropRightWhile inside)

/-- Closed declarations make a closed file. -/
theorem closed_fileText {config : Config} (adds : config.AddsNoBracket) {ds : List TsDecl}
    (h : ∀ d ∈ ds, d.IsClosed config) : Closed (fileText config ds) := by
  refine Text.intercalate_of .empty .append (by decide) (List.forall_mem_append.2 ⟨?_, ?_⟩)
  · exact closed_headingText adds.heading
  · refine List.forall_mem_cons.2 ⟨closed_dictionaryText adds.startModifier, ?_⟩
    exact List.forall_mem_map.2 h

/-! ## Sources -/

theorem Rendering.ofSource_eq_ok {config : Config} {source : String} {file : File} {r : Rendering}
    (parsed : File.parse source = .ok file) (run : ofDecls config file.decls = .ok r) :
    ofSource config source = .ok r := by
  rw [ofSource, parsed]
  show (ofDecls config file.decls).mapError _ = _
  rw [run]
  rfl

/-- Where no comment of a source has a bracket, and the options bring none in, its declarations are
rendered, as a closed text, however deep types may be nested; and so is a type in every slot, if the source
consists of one. -/
theorem Rendering.closed_text {config : Config} (adds : config.AddsNoBracket) {source : String}
    {layout : Layout} (scanned : Layout.ofSource source = .ok layout)
    (comments : ∀ m ∈ layout.comments, Bracketless m.text) :
    (∀ {file}, File.parse source = .ok file → ∃ r, ofSource config source = .ok r ∧ Closed r.text) ∧
    (∀ {x}, TypeExpr.parse source = .ok x → ∀ slot, Closed (ofType config slot x).text) := by
  have inside : ({ config := config } : Context).config.AddsNoBracket := adds
  constructor
  · intro file parsed
    have words := File.wordsIn_of_parse parsed Clean.ofIdent (by decide)
    have remarks := Parser.Attaches.file.bracketless parsed scanned comments
    have clean : ∀ d ∈ file.decls, d.IsClean := fun d mem =>
      ⟨words d mem, fun r remark => remarks r (List.mem_flatMap.2 ⟨d, mem, remark⟩)⟩
    obtain ⟨ds, rendered, closed⟩ := TsDecl.closed_ofDecls inside clean
    obtain ⟨r, run, text⟩ := exists_of_ofDecls rendered
    refine ⟨r, ofSource_eq_ok parsed run, ?_⟩
    rw [text]
    exact closed_fileText adds closed
  · intro x parsed slot
    have words := TypeExpr.wordsIn_of_parse parsed Clean.ofIdent (by decide)
    have remarks := Parser.Attaches.wholeType.bracketless parsed scanned comments
    exact (rendersSealed inside _ slot 0 x ⟨words, remarks⟩).closed

/-- Members, parameters and a comment, and a type with a mapped name in angle brackets. -/
theorem Rendering.closed_text_struct :
    let config : Config := { indent := "\t=", mappings := ⟨[("T", "a = b")]⟩, maxDepth := 3 }
    let source := "// At most = two.\ntype Box[P any] struct \x7b\n\tF func(a ...P) map[int]T\n\tG []*T\n\x7d"
    let alone := "func(a []T, b *func()) (Box[T], error)"
    ∃ r x, ofSource config source = .ok r ∧
      r.text = "type _TygojaDict = \x7b [key:string | number | symbol]: any; \x7d\n\n" ++
        "/**\n * At most = two.\n */\ninterface Box<P> \x7b\n" ++
        "\t=F: (...a: P[]) => _TygojaDict\n\t=G: Array<(a = b | undefined)>\n\x7d\n" ∧
      Closed r.text ∧ TypeExpr.parse alone = .ok x ∧
      (ofType config .part x).text = "(a: Array<a = b>, b: () => void) => Box<a = b>" ∧
      Closed (ofType config .part x).text := by
  intro config source alone
  have adds : config.AddsNoBracket := ⟨by decide, by decide, by decide,
    List.forall_mem_singleton.2 (by decide), .inl rfl, .inl rfl⟩
  have text : (ofSource config source).toOption.map Rendering.text =
      some ("type _TygojaDict = \x7b [key:string | number | symbol]: any; \x7d\n\n" ++
        "/**\n * At most = two.\n */\ninterface Box<P> \x7b\n" ++
        "\t=F: (...a: P[]) => _TygojaDict\n\t=G: Array<(a = b | undefined)>\n\x7d\n") := by
    decide +kernel
  have written : (TypeExpr.parse alone).toOption.map (fun x => (ofType config .part x).text) =
      some "(a: Array<a = b>, b: () => void) => Box<a = b>" := by
    decide +kernel
  have comments : (Layout.ofSource source).toOption.map (fun l => l.comments.map Comment.text) =
      some ["// At most = two."] := by
    decide +kernel
  have none : (Layout.ofSource alone).toOption.map Layout.comments = some [] := by
    decide +kernel
  have declared : (File.parse source).toOption.map (fun file => file.decls.length) = some 1 := by
    decide +kernel
  obtain ⟨r, run, text⟩ := exists_of_toOption_map text
  obtain ⟨x, parsed, written⟩ := exists_of_toOption_map written
  obtain ⟨layout, scanned, comments⟩ := exists_of_toOption_map comments
  obtain ⟨layout', scanned', none⟩ := exists_of_toOption_map none
  obtain ⟨file, accepted, -⟩ := exists_of_toOption_map declared
  have bracketless : ∀ m ∈ layout.comments, Bracketless m.text := by
    intro m mem
    have said := List.mem_map_of_mem (f := Comment.text) mem
    rw [comments] at said
    rw [List.mem_singleton.1 said]
    decide
  obtain ⟨r', run', closed⟩ := (closed_text adds scanned bracketless).1 accepted
  obtain rfl : r' = r := Except.ok.inj (run'.symm.trans run)
  refine ⟨r', x, run, text, closed, parsed, written, ?_⟩
  exact (closed_text adds scanned' (none ▸ List.forall_mem_nil _)).2 parsed .part

/-- A mapping to a text that ends in `=` makes an arrow of the `>` behind it. -/
theorem Rendering.not_closed_text :
    let config : Config := { mappings := ⟨[("T", "x=")]⟩ }
    let source := "type A []T"
    ∃ layout r, Layout.ofSource source = .ok layout ∧ layout.comments = [] ∧
      (∀ entry ∈ config.mappings.entries, Bracketless entry.2) ∧ Bracketless config.indent ∧
      Bracketless config.heading ∧ Bracketless config.startModifier ∧
      config.fieldNames = .keep ∧ config.methodNames = .keep ∧
      ofSource config source = .ok r ∧
      r.text = "type _TygojaDict = \x7b [key:string | number | symbol]: any; \x7d\n\n" ++
        "type A = Array<x=>\n" ∧
      ¬Closed r.text := by
  intro config source
  have comments : (Layout.ofSource source).toOption.map Layout.comments = some [] := by
    decide +kernel
  have text : (ofSource config source).toOption.map Rendering.text =
      some ("type _TygojaDict = \x7b [key:string | number | symbol]: any; \x7d\n\n" ++
        "type A = Array<x=>\n") := by
    decide +kernel
  obtain ⟨layout, scanned, comments⟩ := exists_of_toOption_map comments
  obtain ⟨r, run, text⟩ := exists_of_toOption_map text
  refine ⟨layout, r, scanned, comments, List.forall_mem_singleton.2 (by decide), by decide, by decide,
    by decide, rfl, rfl, run, text, ?_⟩
  rw [text]
  decide +kernel

end Typings
