import Typings.Proofs.Brackets.Words

/-!
# The text of a type is closed

No bracket stands in the words of a type, and none comes in with its comments or the options. So all
brackets in its text are those that the forms of types bring in, each with the one that closes it, and
what stands inside them is closed and does not end in `=` (`rendersSealed`), however much room there is.
-/

namespace Typings

/-! ## The texts of parts -/

section

variable {indent : String} {depth : Int}

/-- Types with commas between them are sealed if each of them is. -/
theorem sealed_textsOfTypes {xs : List TsType} (h : ∀ x ∈ xs, Sealed (x.text indent depth)) :
    Sealed (", ".intercalate (textsOfTypes indent depth xs)) := by
  rw [textsOfTypes_eq_map]
  exact .intercalate (by decide) (List.forall_mem_map.2 h)

theorem sealed_textsOfParams {ps : List TsParam} (h : ∀ p ∈ ps, Sealed (p.text indent depth)) :
    Sealed (", ".intercalate (textsOfParams indent depth ps)) := by
  rw [textsOfParams_eq_map]
  exact .intercalate (by decide) (List.forall_mem_map.2 h)

/-- The members of a body are sealed if each of them is. -/
theorem sealed_textOfMembers {ms : List TsMember} (h : ∀ m ∈ ms, Sealed (m.block indent depth)) :
    Sealed (textOfMembers indent depth ms) := by
  rw [textOfMembers_eq_join]
  exact .join (List.forall_mem_map.2 h)

/-- A member is sealed: its documentation and its key have no bracket, and its type is sealed. -/
theorem TsMember.sealed_block {m : TsMember} (blank : Bracketless indent)
    (doc : ∀ line ∈ m.doc, Bracketless line) (key : Bracketless m.key)
    (type : Sealed (m.type.text indent depth)) (note : Bracketless m.note) :
    Sealed (m.block indent depth) := by
  have margin := bracketless_indentText blank depth
  have optional : Closed (if m.optional then "?" else "") := by split <;> decide
  have colon : Closed (if m.colon then ": " else "") := by split <;> decide
  have text : Closed (m.text indent depth) :=
    ((key.closed.append optional).append colon).append type.closed
  have doc := bracketless_docBlock margin doc
  rw [block, WrittenMember.line, ← String.append_assoc]
  exact (doc.closed.append (margin.closed.append text)).append_sealed (sealed_lineEndText note)
    (lineEndText_ne_empty _)

/-- A parameter is sealed if its type is. -/
theorem TsParam.sealed_text {p : TsParam} (name : Clean p.name)
    (type : Sealed (p.type.text indent depth)) (note : Bracketless p.note) :
    Sealed (p.text indent depth) := by
  have spread : Sealed (if p.spread then "..." else "") := by split <;> decide
  have front := (spread.append name.sealed).append (by decide : Sealed ": ")
  exact (front.append type).append (sealed_paramNote note)

/-! ## The forms of types -/

namespace TsType

/-- The braces around members match each other. -/
theorem sealed_object (blank : Bracketless indent) {ms : List TsMember}
    (h : ∀ m ∈ ms, Sealed (m.block indent (depth + 1))) : Sealed ((object ms).text indent depth) := by
  have frames : Frames '\x7b' '\x7d' "\x7b\n" (indentText indent depth ++ "\x7d") := by
    refine ⟨by decide, by decide, ?_, by decide, ?_⟩
    · rw [brackets_append (.inr (by decide)), (bracketless_indentText blank depth).brackets_eq_nil]
      decide
    · rw [String.toList_append, List.getLast?_append]
      exact (by decide : some '\x7d' ≠ some '=')
  rw [text, String.append_assoc]
  exact frames.sealed (sealed_textOfMembers h)

theorem sealed_parenIf {x : TsType} (h : Sealed (x.text indent depth)) (enclose : Bool) :
    Sealed ((parenIf enclose x).text indent depth) := by
  cases enclose with
  | false => exact h
  | true => exact (by decide : Frames '(' ')' "(" ")").sealed h

/-- What stands for a pointer puts matching parentheses around the type, or none. -/
theorem sealed_pointerTo {x : TsType} (h : Sealed (x.text indent depth)) (slot : Slot)
    (isFunc : Bool) : Sealed ((pointerTo slot isFunc x).text indent depth) := by
  unfold pointerTo
  split
  · exact sealed_parenIf (x := .nullable _) ((sealed_parenIf h isFunc).append (by decide)) _
  · exact h

theorem sealed_ofResults {xs : List TsType} (h : ∀ x ∈ xs, Sealed (x.text indent depth)) :
    Sealed ((ofResults xs).text indent depth) := by
  unfold ofResults
  split
  · exact (by decide : Sealed "void")
  · exact h _ List.mem_cons_self
  · exact (by decide : Frames '[' ']' "[" "]").sealed (sealed_textsOfTypes h)

/-- The parentheses of a function match each other, and the arrow closes none. -/
theorem sealed_ofFunc {slot : Slot} {params : List TsParam} {result : TsType}
    (h : ∀ p ∈ params, Sealed (p.text indent depth)) (k : Sealed (result.text indent depth)) :
    Sealed ((ofFunc slot params result).text indent depth) := by
  have inside := sealed_textsOfParams h
  unfold ofFunc
  split
  · exact ((by decide : Frames '(' ')' "(" ") => ").sealed inside).append k
  · exact ((by decide : Frames '(' ')' "(" "): ").sealed inside).append k

end TsType

end

/-! ## Rendering -/

section

variable {ctx : Context} {room : Nat} {depth : Int}

theorem sealed_builtin {name text : String} (h : builtin? name = some text) : Sealed text :=
  (by decide : ∀ text ∈ ["string", "boolean", "Error", "number"], Sealed text) _ (mem_of_builtin? h)

/-- What a name is rendered as is sealed: the name itself, a word, or the text of a mapping. -/
theorem Context.sealed_ofName (adds : ctx.config.AddsNoBracket) {name : String} (h : Clean name) :
    Sealed ((ctx.ofName name).text ctx.config.indent depth) := by
  unfold ofName
  split
  · exact h.sealed
  · split
    · next text found =>
      rcases Option.or_eq_some_iff.1 found with mapped | ⟨-, known⟩
      · exact adds.mapped (Mappings.mem_of_find? mapped)
      · exact sealed_builtin known
    · exact h.sealed

/-- What a selector is rendered as is sealed. -/
theorem Context.sealed_ofSelector (adds : ctx.config.AddsNoBracket) {x : TypeExpr} {sel : String}
    (qualifier : x.WordsIn Clean) (h : Clean sel) :
    Sealed ((ctx.ofSelector x sel).text ctx.config.indent depth) := by
  have stable := Clean.stable
  unfold ofSelector
  split
  · exact (by decide : Sealed "any")
  · split
    · next text found =>
      obtain ⟨key, mem⟩ := Mappings.exists_of_findQualified? found
      exact adds.mapped mem
    · have front := stable.append (stable.qualifiedName x qualifier) stable.dot
      exact Clean.sealed (stable.append front h)

/-- Every clean type, in whatever slot and at whatever level, is rendered as a text that is closed, with
so much room. -/
def RendersSealed (ctx : Context) (room : Nat) : Prop :=
  ∀ slot depth x, x.IsClean → Sealed ((TsType.ofExpr ctx room slot x).text ctx.config.indent depth)

/-- The members of a field are sealed if its type is. -/
theorem TsMember.sealed_ofField {style : NameStyle} (plain : style = .keep ∨ style = .camel)
    (blank : Bracketless ctx.config.indent) {f : Field} (clean : f.IsClean) {optional colon : Bool}
    {type : TsType} (h : Sealed (type.text ctx.config.indent depth)) :
    ∀ m ∈ ofField style f optional colon type, Sealed (m.block ctx.config.indent depth) := by
  refine List.forall_mem_map.2 fun n visible => ?_
  have name := clean.names n (List.mem_filter.1 visible).1
  have key := Clean.stable.propertyKey (Clean.stable.apply plain name)
  exact sealed_block blank clean.doc (Clean.bracketless key) h clean.note

theorem TsParam.sealed_ofField {i : Nat} {f : Field} (clean : f.IsClean) {type : TsType}
    (h : Sealed (type.text ctx.config.indent depth)) :
    ∀ p ∈ ofField i f type, Sealed (p.text ctx.config.indent depth) :=
  List.forall_mem_map.2 fun _ placed =>
    sealed_text (Clean.stable.of_mem_namesAt clean.names placed) h clean.note

namespace RendersSealed

variable {fs : List Field}

theorem types (h : RendersSealed ctx room) {xs : List TypeExpr} (clean : ∀ x ∈ xs, x.IsClean)
    (depth : Int) : ∀ x ∈ typesOf ctx room xs, Sealed (x.text ctx.config.indent depth) := by
  rw [typesOf_eq_map]
  exact List.forall_mem_map.2 fun x mem => h .part depth x (clean x mem)

/-- The members of a struct are sealed. -/
theorem structMembers (h : RendersSealed ctx room) (adds : ctx.config.AddsNoBracket)
    (clean : ∀ f ∈ fs, f.IsClean) :
    ∀ m ∈ structMembers ctx room fs, Sealed (m.block ctx.config.indent depth) := by
  induction fs with
  | nil => exact List.forall_mem_nil _
  | cons f fs ih =>
    obtain ⟨first, rest⟩ := List.forall_mem_cons.1 clean
    rw [structMembers_cons]
    refine List.forall_mem_append.2 ⟨?_, ih rest⟩
    exact TsMember.sealed_ofField adds.fieldNames adds.indent first (h .part depth _ first.type.deref)

/-- The members of an interface are sealed. -/
theorem interfaceMembers (h : RendersSealed ctx room) (adds : ctx.config.AddsNoBracket)
    (clean : ∀ f ∈ fs, f.IsClean) :
    ∀ m ∈ interfaceMembers ctx room fs, Sealed (m.block ctx.config.indent depth) := by
  induction fs with
  | nil => exact List.forall_mem_nil _
  | cons f fs ih =>
    obtain ⟨first, rest⟩ := List.forall_mem_cons.1 clean
    rw [interfaceMembers_cons]
    refine List.forall_mem_append.2 ⟨?_, ih rest⟩
    exact TsMember.sealed_ofField adds.methodNames adds.indent first (h .plain depth _ first.type)

/-- The parameters of a function are sealed. -/
theorem params (h : RendersSealed ctx room) (clean : ∀ f ∈ fs, f.IsClean) (depth : Int) (i : Nat) :
    ∀ p ∈ paramsFrom ctx room i fs, Sealed (p.text ctx.config.indent depth) := by
  induction fs generalizing i with
  | nil => exact List.forall_mem_nil _
  | cons f fs ih =>
    obtain ⟨first, rest⟩ := List.forall_mem_cons.1 clean
    rw [paramsFrom_cons]
    refine List.forall_mem_append.2 ⟨?_, ih rest _⟩
    exact TsParam.sealed_ofField first (h .part depth _ first.type.deref)

/-- The results of a function are sealed. -/
theorem results (h : RendersSealed ctx room) (clean : ∀ f ∈ fs, f.IsClean) (depth : Int) :
    ∀ x ∈ resultsOf ctx room fs, Sealed (x.text ctx.config.indent depth) := by
  induction fs with
  | nil => exact List.forall_mem_nil _
  | cons f fs ih =>
    obtain ⟨first, rest⟩ := List.forall_mem_cons.1 clean
    rw [resultsOf_cons]
    refine List.forall_mem_append.2 ⟨fun x mem => ?_, ih rest⟩
    rw [List.eq_of_mem_replicate mem]
    exact h .result depth _ first.type

end RendersSealed

/-- However much room there is, a clean type is rendered as a closed text: a type without room is `any`,
any other puts the texts of its parts, with less room, between brackets of its own. -/
theorem rendersSealed (adds : ctx.config.AddsNoBracket) (room : Nat) : RendersSealed ctx room := by
  induction room with
  | zero =>
    intro slot depth x clean
    rw [TsType.ofExpr]
    exact (by decide : Sealed "any")
  | succ room ih =>
    intro slot depth x clean
    obtain ⟨words, remarks⟩ := clean
    cases x with
    | pointer x => exact TsType.sealed_pointerTo (ih _ depth x ⟨words, remarks⟩) slot x.isFunc
    | variadic elt =>
      rw [TsType.ofExpr]
      split
      · exact (by decide : Sealed "string")
      · exact (TsType.sealed_parenIf (ih .part depth elt ⟨words, remarks⟩) _).append (by decide)
    | array elt length =>
      have inside : ∀ r ∈ elt.remarks, r.Bracketless := by
        cases length with
        | none => exact remarks
        | some length => exact (List.forall_mem_append.1 remarks).2
      have elt := ih .part depth elt ⟨words, inside⟩
      rw [TsType.ofExpr]
      split
      · exact (by decide : Frames '<' '>' "string|Array<" ">").sealed elt
      · exact (by decide : Frames '<' '>' "Array<" ">").sealed elt
    | struct fields =>
      exact TsType.sealed_object adds.indent (ih.structMembers adds (Field.isClean words remarks))
    | interface methods =>
      exact TsType.sealed_object adds.indent (ih.interfaceMembers adds (Field.isClean words remarks))
    | name name => exact Context.sealed_ofName adds words
    | selector x sel => exact Context.sealed_ofSelector adds words.1 words.2
    | map key value => exact (by decide : Sealed dictionaryName)
    | literal kind text => exact Clean.sealed words
    | counted text => exact Clean.sealed words
    | paren x => exact (by decide : Frames '(' ')' "(" ")").sealed (ih .part depth x ⟨words, remarks⟩)
    | binary x op y =>
      obtain ⟨left, op, right⟩ := words
      rw [TypeExpr.remarks] at remarks
      obtain ⟨before, behind⟩ := List.forall_mem_append.1 remarks
      have x := ih .part depth x ⟨left, before⟩
      have y := ih .part depth y ⟨right, behind⟩
      have space : Sealed " " := by decide
      exact ((((x.append space).append (Clean.sealed op)).append space).append y)
    | func params results typeParams =>
      rw [TypeExpr.remarks] at remarks
      obtain ⟨front, behind⟩ := List.forall_mem_append.1 remarks
      obtain ⟨-, before⟩ := List.forall_mem_append.1 front
      have params := ih.params (Field.isClean words.1 before) depth 0
      have results := ih.results (Field.isClean words.2 behind) depth
      refine TsType.sealed_ofFunc params (TsType.sealed_ofResults fun x mem => ?_)
      exact results x (mem_of_mem_withoutError mem)
    | unary op x =>
      rw [TsType.ofExpr]
      split
      · exact ih .plain depth x ⟨words, remarks⟩
      · exact Sealed.empty
    | generic x args =>
      rw [TypeExpr.remarks, remarksOfTypes_eq_flatMap] at remarks
      obtain ⟨before, behind⟩ := List.forall_mem_append.1 remarks
      have base := ih .plain depth x ⟨words.1, before⟩
      have clean : ∀ arg ∈ args, arg.IsClean := fun arg mem =>
        ⟨typesIn_iff.1 words.2 arg mem, fun r here => behind r (List.mem_flatMap.2 ⟨arg, mem, here⟩)⟩
      have args := sealed_textsOfTypes (ih.types clean depth)
      have closed := base.append ((by decide : Frames '<' '>' "<" ">").sealed args)
      rw [← String.append_assoc, ← String.append_assoc] at closed
      exact closed
    | call fn args => exact (by decide : Sealed "undefined")
    | channel dir value => exact (by decide : Sealed "undefined")
    | composite type elts => exact (by decide : Sealed "undefined")
    | unknown => exact (by decide : Sealed "any")

end

end Typings
