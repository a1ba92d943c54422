import Typings.Proofs.Parser.Names
import Typings.Proofs.Surface.Unresolved

/-!
# What a step adds to the unresolved names

Each step of a session adds to the unresolved names exactly those that it leaves in its text
(`Session.notes_rendered`): none is lost that was there before, each new one is a name that nothing is
known about among the expressions that are rendered, all of these are added, and each of them can be
read in the text.
-/

namespace Typings

/-! ## Words of what is rendered -/

section

variable {good : String → Prop}

theorem TypeExpr.wordsIn_of_mem_returned {results : List Field} (words : FieldsIn good results)
    {x : TypeExpr} (mem : x ∈ returned results) : x.WordsIn good := by
  obtain ⟨f, among, rfl⟩ := exists_of_mem_returned mem
  exact (fieldsIn_iff.1 words f among).2

/-- What is rendered of a type has words of the type only. -/
theorem TypeExpr.Shown.wordsIn {room : Nat} {x y : TypeExpr} (shown : x.Shown room y)
    (words : x.WordsIn good) : y.WordsIn good := by
  induction shown with
  | self => exact words
  | pointer _ ih | array _ ih | paren _ ih | tilde _ ih => exact ih words
  | variadic _ _ ih => exact ih words
  | structMember mem _ _ _ ih => exact ih (fieldsIn_iff.1 words _ mem).2.deref
  | method mem _ _ _ ih => exact ih (fieldsIn_iff.1 words _ mem).2
  | left _ ih | base _ ih => exact ih words.1
  | right _ ih => exact ih words.2.2
  | param mem _ ih => exact ih (fieldsIn_iff.1 words.1 _ mem).2.deref
  | result mem _ ih => exact ih (wordsIn_of_mem_returned words.2 mem)
  | arg mem _ ih => exact ih (typesIn_iff.1 words.2 _ mem)

/-- What is rendered of a declaration has words of the declaration only. -/
theorem Decl.Shown.wordsIn {room : Nat} {d : Decl} {y : TypeExpr} (shown : d.Shown room y)
    (words : d.WordsIn good) : y.WordsIn good := by
  cases shown with
  | body _ shown => exact shown.wordsIn words.2.2
  | @embedded spec y x _ mem shown =>
    refine shown.wordsIn ?_
    obtain ⟨f, among, rfl⟩ := List.mem_map.1 mem
    have inside : f ∈ spec.type.bodyFields := (List.mem_filter.1 among).1
    have type := words.2.2
    cases body : spec.type with
    | struct fields | interface fields =>
      rw [body] at inside type
      exact (fieldsIn_iff.1 type f inside).2
    | _ =>
      rw [body] at inside
      cases inside
  | function _ _ shown => exact shown.wordsIn words.2.2.1
  | method _ _ _ shown => exact shown.wordsIn words.2.2.1

end

/-! ## Unresolved names are written -/

mutual

/-- A name that a type leaves is in its text. -/
theorem TsType.contains_unresolved (indent : String) (depth : Int) {name : String} :
    ∀ (t : TsType), .unresolved name ∈ t.issues → Contains (t.text indent depth) name
  | .verbatim _, mem => nomatch mem
  | .unresolved n, mem => by
    cases List.mem_singleton.1 mem
    exact .refl _
  | .cut _, mem | .dropped _, mem => by cases List.mem_singleton.1 mem
  | .array elt, mem | .bytes elt, mem | .paren elt, mem =>
    ((elt.contains_unresolved indent depth mem).append_left _).append_right _
  | .list x, mem | .nullable x, mem => (x.contains_unresolved indent depth mem).append_right _
  | .binary x op y, mem => by
    rcases List.mem_append.1 mem with left | right
    · have h := x.contains_unresolved indent depth left
      exact ((h.append_right _).append_right _).append_right _ |>.append_right _
    · exact (y.contains_unresolved indent depth right).append_left _
  | .generic base args, mem => by
    rcases List.mem_append.1 mem with left | right
    · have h := base.contains_unresolved indent depth left
      exact ((h.append_right _).append_right _).append_right _
    · obtain ⟨text, among, h⟩ := contains_unresolved_of_types indent depth args right
      exact ((h.intercalate among).append_left _).append_right _
  | .object members, mem => by
    have h := contains_unresolved_of_members indent (depth + 1) members mem
    exact ((h.append_left _).append_right _).append_right _
  | .arrow params result, mem | .signature params result, mem => by
    rcases List.mem_append.1 mem with left | right
    · obtain ⟨text, among, h⟩ := contains_unresolved_of_params indent depth params left
      exact (((h.intercalate among).append_left _).append_right _).append_right _
    · exact (result.contains_unresolved indent depth right).append_left _
  | .tuple items, mem => by
    obtain ⟨text, among, h⟩ := contains_unresolved_of_types indent depth items mem
    exact ((h.intercalate among).append_left _).append_right _

theorem contains_unresolved_of_types (indent : String) (depth : Int) {name : String} :
    ∀ (xs : List TsType), .unresolved name ∈ issuesOfTypes xs →
      ∃ text ∈ textsOfTypes indent depth xs, Contains text name
  | [], mem => nomatch mem
  | x :: xs, mem => by
    rcases List.mem_append.1 mem with here | behind
    · exact ⟨_, List.mem_cons_self, x.contains_unresolved indent depth here⟩
    · obtain ⟨text, among, h⟩ := contains_unresolved_of_types indent depth xs behind
      exact ⟨text, List.mem_cons_of_mem _ among, h⟩

theorem contains_unresolved_of_members (indent : String) (depth : Int) {name : String} :
    ∀ (ms : List TsMember), .unresolved name ∈ issuesOfMembers ms →
      Contains (textOfMembers indent depth ms) name
  | [], mem => nomatch mem
  | ⟨doc, key, optional, colon, type, note⟩ :: ms, mem => by
    rw [textOfMembers]
    rcases List.mem_append.1 mem with here | behind
    · have h := type.contains_unresolved indent depth here
      exact ((h.append_left _).append_right _).append_right _
    · exact (contains_unresolved_of_members indent depth ms behind).append_left _

theorem contains_unresolved_of_params (indent : String) (depth : Int) {name : String} :
    ∀ (ps : List TsParam), .unresolved name ∈ issuesOfParams ps →
      ∃ text ∈ textsOfParams indent depth ps, Contains text name
  | [], mem => nomatch mem
  | ⟨spread, key, type, note⟩ :: ps, mem => by
    rcases List.mem_append.1 mem with here | behind
    · have h := type.contains_unresolved indent depth here
      exact ⟨_, List.mem_cons_self, (h.append_left _).append_right _⟩
    · obtain ⟨text, among, h⟩ := contains_unresolved_of_params indent depth ps behind
      exact ⟨text, List.mem_cons_of_mem _ among, h⟩

end

/-- A name that a declaration leaves is in its text. -/
theorem TsDecl.contains_unresolved (indent startModifier : String) {t : TsDecl} {name : String}
    (leaves : t.Leaves name) : Contains (t.text indent startModifier) name := by
  cases t with
  | interface doc title params bases members =>
    rcases List.mem_append.1 leaves with left | right
    · obtain ⟨text, among, h⟩ := contains_unresolved_of_types indent 0 bases left
      have some : bases.isEmpty = false := by
        cases bases with
        | nil => cases left
        | cons => rfl
      have inExtends : Contains (extendsText indent bases) name := by
        rw [extendsText, some]
        exact (h.intercalate among).append_left _
      exact ((inExtends.append_left _).append_right _ |>.append_right _).append_right _
    · have h := contains_unresolved_of_members indent 1 members right
      exact (h.append_left _).append_right _
  | synonym doc title params type note =>
    exact ((type.contains_unresolved indent 0 leaves).append_left _).append_right _

/-! ## Steps of a session -/

theorem Diagnostics.mem_unknown_add {d : Diagnostics} {issues : List Issue} {name : String} :
    name ∈ (d.add issues).unknown ↔ name ∈ d.unknown ∨ .unresolved name ∈ issues := by
  have names : name ∈ issues.filterMap Issue.name? ↔ .unresolved name ∈ issues := by
    rw [List.mem_filterMap]
    constructor
    · rintro ⟨issue, mem, same⟩
      cases issue with
      | unresolved n =>
        cases same
        exact mem
      | _ => cases same
    · intro mem
      exact ⟨_, mem, rfl⟩
  rw [add, NameSet.mem_insertAll, names]

namespace Session

/-- What a step has noted, where the expressions that are rendered and the names in scope are known: to
the unresolved names those are added, and only those, that are among the expressions, and that nothing
is known about; and they can be read in the text. -/
structure Notes (before after : Session) (text : String) (shown : TypeExpr → Prop) (ctx : Context) :
    Prop where
  mem_unknown_iff : ∀ name, name ∈ after.noted.unknown ↔
    name ∈ before.noted.unknown ∨ ∃ y, shown y ∧ ctx.Unresolved y name
  contains : ∀ {y name}, shown y → ctx.Unresolved y name → Contains text name

/-- A step notes its issues. -/
theorem notes_emit (s : Session) {text : String} {issues : List Issue} {shown : TypeExpr → Prop}
    {ctx : Context}
    (left : ∀ name, .unresolved name ∈ issues ↔ ∃ y, shown y ∧ ctx.Unresolved y name)
    (contains : ∀ name, .unresolved name ∈ issues → Contains text name) :
    Notes s (s.emit text issues).2 text shown ctx where
  mem_unknown_iff name := Diagnostics.mem_unknown_add.trans (or_congr_right (left name))
  contains {y name} here unresolved := contains name ((left name).2 ⟨y, here, unresolved⟩)

theorem notes_type (s : Session) (depth : Int) (slot : Slot) (x : TypeExpr) :
    Notes s (s.type depth slot x).2 (s.type depth slot x).1 (x.Shown s.context.room) s.context :=
  s.notes_emit (fun _ => TsType.leaves_ofExpr s.context s.context.room slot x)
    fun _ mem => TsType.contains_unresolved s.context.config.indent depth _ mem

theorem exists_notes_decl (s : Session) {d : Decl} (known : d ≠ .unknown) :
    ∃ text after, s.decl d = .ok (text, after) ∧
      Notes s after text (d.Shown s.context.room) (s.context.within d.scope) := by
  obtain ⟨rendered, made, leaves⟩ := TsDecl.leaves_ofDecl s.context known
  unfold decl
  rw [made]
  cases rendered with
  | none =>
    refine ⟨"", _, rfl, s.notes_emit (fun name => ?_) fun _ mem => nomatch mem⟩
    refine iff_of_false List.not_mem_nil fun shown => ?_
    obtain ⟨t, mem, -⟩ := (leaves name).2 shown
    cases mem
  | some t =>
    refine ⟨_, _, rfl, s.notes_emit (fun name => ?_) fun _ mem => t.contains_unresolved _ _ mem⟩
    rw [← leaves name]
    exact ⟨fun mem => ⟨t, rfl, mem⟩, fun ⟨_, same, mem⟩ => Option.some.inj same ▸ mem⟩

/-- Rendering a declaration or a type notes the names that nothing is known about, among the
expressions that are rendered. -/
theorem notes_rendered (s : Session) :
    (∀ {source : String} {file : File}, File.parse source = .ok file → ∀ d ∈ file.decls,
      ∃ text after, s.decl d = .ok (text, after) ∧
        Notes s after text (d.Shown s.context.room) (s.context.within d.scope)) ∧
    ∀ (depth : Int) (slot : Slot) (x : TypeExpr),
      Notes s (s.type depth slot x).2 (s.type depth slot x).1 (x.Shown s.context.room) s.context := by
  refine ⟨fun {source file} parsed d mem => s.exists_notes_decl ?_, s.notes_type⟩
  rintro rfl
  exact File.wordsIn_of_parse parsed (fun _ => trivial) trivial _ mem

/-- Bases, a map, a pointer member, a hidden member, a variadic of bytes, a type parameter, a mapped
package, a trailing error, a channel, a type that is cut, and a method whose receiver renames the type
parameter. -/
theorem notes_rendered_members :
    let source := "type A[T any] struct \x7b\n Base\n *pkg.Other\n F map[K]V\n G, g *[]Elem\n" ++
      " h Hidden\n M func(xs ...byte, y *T, z time.Time) (p.R, error)\n" ++
      " N interface \x7b Do(c chan C); Far() [][]Deep \x7d\n\x7d\nfunc (a *A[U]) Get(u U, w W) \x7b\x7d"
    let s := Session.ofConfig { mappings := ⟨[("time.*", "Date")]⟩, maxDepth := 4 }
    ∃ file, File.parse source = .ok file ∧
      (file.decls.map fun d => (s.decl d).toOption.map fun step => step.2.noted.unknown.toList) =
        [some ["Base", "Elem", "p.R", "pkg.Other"], some ["W"]] ∧
      ∀ d ∈ file.decls, ∃ text after, s.decl d = .ok (text, after) ∧
        Notes s after text (d.Shown 4) (s.context.within d.scope) := by
  intro source s
  have names : (File.parse source).toOption.map (fun file => file.decls.map fun d =>
      (s.decl d).toOption.map fun step => step.2.noted.unknown.toList) =
      some [some ["Base", "Elem", "p.R", "pkg.Other"], some ["W"]] := by
    decide +kernel
  obtain ⟨file, parsed, names⟩ := exists_of_toOption_map names
  exact ⟨file, parsed, names, s.notes_rendered.1 parsed⟩

end Session

end Typings
