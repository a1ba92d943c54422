import Typings.Proofs.Precedence.Slots
import Typings.Proofs.Spelling.Grammar

/-!
# What rendered types are read as

By induction over the spelling of a type, its rendering is read as some form for every slot and with
every room, and that form is the one that is meant exactly if `TypeExpr.groups` says so.
-/

namespace Typings

open TsWord TsType

variable {indent : String} {ctx : Context}

/-! ## Lists -/

section Lists

variable {room : Nat}

/-- Types in a list are read back, each as its own grouping. -/
theorem allRead_typesOf {xs : List TypeExpr} (h : ∀ x ∈ xs, x.Renders indent ctx room) :
    AllRead (TsType.IsReadAs indent) (typesOf ctx room xs) (groupingsOfTypes room xs)
      (typesGroup room xs) := by
  induction xs with
  | nil => exact .nil
  | cons x xs ih =>
    obtain ⟨first, rest⟩ := List.forall_mem_cons.1 h
    exact .cons (first.type .part rfl rfl).isReadAs (ih rest)

/-- The members of a struct are read back as the groupings of its fields, one for each visible name. -/
theorem allRead_structMembers {fields : List Field}
    (h : ∀ f ∈ fields, f.type.Renders indent ctx room) :
    AllRead (TsMember.ReadsAs indent) (structMembers ctx room fields)
      (groupingsOfValues memberCount room fields) (valuesGroup memberCount room fields) := by
  induction fields with
  | nil => exact .nil
  | cons f fields ih =>
    obtain ⟨first, rest⟩ := List.forall_mem_cons.1 h
    rw [structMembers_cons, groupingsOfValues_cons, valuesGroup_cons]
    refine .append (.map ?_) (ih rest)
    obtain ⟨g, reads, same⟩ := first.value.isReadAs
    refine ⟨g, fun name _ => ?_, same⟩
    exact TsMember.readsAs_typed (propertyKey_word _) (not_mem_noteOf _) reads

/-- Parameters are read back as the groupings of their fields, one for each name. -/
theorem allRead_paramsFrom {fields : List Field}
    (h : ∀ f ∈ fields, f.type.RendersAsEntry indent ctx room)
    (names : ∀ f ∈ fields, ∀ n ∈ f.names, IsName n)
    (i : Nat) :
    AllRead (TsParam.ReadsAs indent) (paramsFrom ctx room i fields)
      (groupingsOfValues entryCount room fields) (valuesGroup entryCount room fields) := by
  induction fields generalizing i with
  | nil => exact .nil
  | cons f fields ih =>
    obtain ⟨first, rest⟩ := List.forall_mem_cons.1 h
    obtain ⟨names, names'⟩ := List.forall_mem_cons.1 names
    rw [paramsFrom_cons, groupingsOfValues_cons, valuesGroup_cons]
    refine .append ?_ (ih rest names' (i + 1))
    rw [← length_namesAt i f.names]
    obtain ⟨g, reads, same⟩ := first.value
    exact .map ⟨g, fun name mem => ⟨isName_of_mem_namesAt names mem, reads⟩, same⟩

/-- Results are read back as the groupings of their fields. -/
theorem allRead_resultsOf {fields : List Field}
    (h : ∀ f ∈ fields, f.type.RendersAsEntry indent ctx room) :
    AllRead (TsType.IsReadAs indent) (resultsOf ctx room fields)
      (groupingsOfFields entryCount true room fields) (fieldsGroup entryCount room fields) := by
  induction fields with
  | nil => exact .nil
  | cons f fields ih =>
    obtain ⟨first, rest⟩ := List.forall_mem_cons.1 h
    rw [resultsOf_cons, groupingsOfFields_cons, fieldsGroup_cons]
    exact .append (.replicate _ (first.result .result rfl rfl)) (ih rest)

theorem groupingsOfFields_append (count : List String → Nat) (returned : Bool) (fs gs : List Field) :
    groupingsOfFields count returned room (fs ++ gs) =
      groupingsOfFields count returned room fs ++ groupingsOfFields count returned room gs := by
  induction fs with
  | nil => rfl
  | cons f fs ih =>
    rw [List.cons_append, groupingsOfFields_cons, groupingsOfFields_cons, ih, List.append_assoc]

theorem fieldsGroup_append (count : List String → Nat) (fs gs : List Field) :
    fieldsGroup count room (fs ++ gs) =
      (fieldsGroup count room fs && fieldsGroup count room gs) := by
  induction fs with
  | nil => rfl
  | cons f fs ih => rw [List.cons_append, fieldsGroup_cons, fieldsGroup_cons, ih, Bool.and_assoc]

theorem dropLast_append_replicate {α : Type} (xs : List α) (n : Nat) (x : α) :
    (xs ++ List.replicate (n + 1) x).dropLast = xs ++ List.replicate n x := by
  rw [List.replicate_succ', ← List.append_assoc, List.dropLast_concat]

/-- What the results are read as, without an error at their end. -/
theorem allRead_withoutError {fields : List Field}
    (h : ∀ f ∈ fields, f.type.RendersAsEntry indent ctx room) :
    AllRead (TsType.IsReadAs indent) (withoutError fields (resultsOf ctx room fields))
      (if endsInError fields then (groupingsOfFields entryCount true room fields).dropLast
        else groupingsOfFields entryCount true room fields)
      (fieldsGroup entryCount room fields) := by
  unfold withoutError
  cases ends : endsInError fields with
  | false => exact allRead_resultsOf h
  | true =>
    obtain ⟨init, f, rfl, error⟩ := exists_of_endsInError ends
    obtain ⟨before, last⟩ := List.forall_mem_append.1 h
    have read := (List.forall_mem_cons.1 last).1.result .result rfl rfl
    have groups : f.type.groups room = true := by
      rw [error]
      cases room <;> rfl
    obtain ⟨n, count⟩ : ∃ n, entryCount f.names = n + 1 :=
      Nat.exists_eq_succ_of_ne_zero (by unfold entryCount; omega)
    have all : fieldsGroup entryCount room (init ++ [f]) =
        (fieldsGroup entryCount room init && (n == 0 || f.type.groups room)) := by
      rw [fieldsGroup_append, fieldsGroup_cons, groups, Bool.or_true, Bool.or_true]
      rfl
    have most := (allRead_resultsOf before).append (.replicate n read)
    rw [if_pos rfl, if_pos rfl, resultsOf_append, groupingsOfFields_append, resultsOf_cons,
      groupingsOfFields_cons, resultsOf, groupingsOfFields, List.append_nil, List.append_nil, all]
    show AllRead _ (_ ++ List.replicate (entryCount f.names) _).dropLast _ _
    rw [count, dropLast_append_replicate, dropLast_append_replicate]
    exact most

end Lists

/-! ## Functions, bodies and generic types -/

namespace TypeExpr.Renders

variable {room : Nat}

/-- A function is read back with its parameters and its result, the error at the end left out. -/
theorem func (ctx : Context) {params results : List Field}
    (hparams : ∀ f ∈ params, f.type.RendersAsEntry indent ctx room)
    (names : ∀ f ∈ params, ∀ n ∈ f.names, IsName n)
    (hresults : ∀ f ∈ results, f.type.RendersAsEntry indent ctx room) :
    (TypeExpr.func params results []).Renders indent ctx (room + 1) := by
  have entries := allRead_paramsFrom hparams names 0
  have result := Reads.ofResults (allRead_withoutError hresults)
  have arrow := Reads.arrow entries result
  refine ⟨fun slot enclosed _ => ?_, fun none => ?_, fun none => ?_, arrow, fun _ _ => ?_⟩
  · rw [ofExpr, ofFunc, enclosed]
    exact arrow
  · exact absurd (none rfl) (Nat.succ_ne_zero room)
  · exact absurd (none rfl) (Nat.succ_ne_zero room)
  · obtain ⟨_, fs, reads, same⟩ := entries
    obtain ⟨f, read, same'⟩ := result
    refine ⟨_, _, fs, f, rfl, rfl, reads, read, ?_⟩
    rw [grouping, groups, Bool.and_eq_true, ← same, ← same', TsForm.arrow.injEq]

/-- A struct is read back member by member. -/
theorem struct (ctx : Context) (blank : IsBlank indent) {fields : List Field}
    (h : ∀ f ∈ fields, f.type.Renders indent ctx room) :
    (TypeExpr.struct fields).Renders indent ctx (room + 1) :=
  .ofOperand (fun _ _ => rfl) (fun _ => rfl) rfl rfl (.object blank (allRead_structMembers h))

/-- A method as it is written behind its key. -/
theorem method {x : TypeExpr} (h : x.Renders indent ctx room) (func : x.isFunc = true) :
    ∃ f, (∀ doc key note, (IsName key ∨ Closes key [.quoted]) → '\n' ∉ note.toList →
      TsMember.ReadsAs indent ⟨doc, key, false, false, ofExpr ctx room .plain x, note⟩ f) ∧
      (f = x.grouping room false ↔ x.groups room = true) := by
  cases room with
  | zero =>
    refine ⟨.any, fun doc key note isKey line => ?_, ?_⟩
    · rw [ofExpr]
      exact TsMember.readsAs_cut isKey line
    · rw [grouping, groups]
      simp
  | succ room =>
    obtain ⟨params, result, fs, f, _, written, reads, read, same⟩ := h.function func (Nat.succ_ne_zero room)
    refine ⟨.arrow fs f, fun doc key note isKey line => ?_, same⟩
    rw [written]
    exact TsMember.readsAs_method isKey line reads read

end TypeExpr.Renders

/-- The methods of an interface are read back as the groupings of their types. -/
theorem allRead_interfaceMembers {room : Nat} {methods : List Field}
    (h : ∀ f ∈ methods, f.names ≠ [] → f.type.isFunc = true ∧ f.type.Renders indent ctx room) :
    AllRead (TsMember.ReadsAs indent) (interfaceMembers ctx room methods)
      (groupingsOfFields memberCount false room methods) (fieldsGroup memberCount room methods) := by
  induction methods with
  | nil => exact .nil
  | cons f methods ih =>
    obtain ⟨first, rest⟩ := List.forall_mem_cons.1 h
    rw [interfaceMembers_cons, groupingsOfFields_cons, fieldsGroup_cons]
    obtain ⟨names, type, doc, comment, tag⟩ := f
    cases names with
    | nil => exact ih rest
    | cons name names =>
      obtain ⟨func, renders⟩ := first nofun
      obtain ⟨g, reads, same⟩ := renders.method func
      refine .append (.map ⟨g, fun name _ => ?_, same⟩) (ih rest)
      show TsMember.ReadsAs indent ⟨_, _, false, !type.isFunc, _, _⟩ g
      rw [func]
      exact reads _ _ _ (propertyKey_word _) (not_mem_noteOf _)

namespace TypeExpr.Renders

variable {room : Nat}

/-- An interface is read back method by method. -/
theorem interface (ctx : Context) (blank : IsBlank indent) {methods : List Field}
    (h : ∀ f ∈ methods, f.names ≠ [] → f.type.isFunc = true ∧ f.type.Renders indent ctx room) :
    (TypeExpr.interface methods).Renders indent ctx (room + 1) :=
  .ofOperand (fun _ _ => rfl) (fun _ => rfl) rfl rfl (.object blank (allRead_interfaceMembers h))

/-- A generic type is read back with its arguments. -/
theorem generic {x : TypeExpr} {n : String} {args : List TypeExpr} (base : x.IsBase indent ctx room n)
    (some : args ≠ []) (h : ∀ y ∈ args, y.Renders indent ctx room) :
    (TypeExpr.generic x args).Renders indent ctx (room + 1) := by
  have types : typesOf ctx room args ≠ [] := by
    rw [typesOf_eq_map]
    exact fun none => some (List.map_eq_nil_iff.1 none)
  refine .ofOperand (fun _ _ => rfl) (fun _ => ?_) rfl rfl
    (.generic (base.text .plain) base.isName types (allRead_typesOf h))
  rw [grouping, base.meant]

end TypeExpr.Renders

/-! ## The induction -/

/-- What a phrase says about the renderings of the types in it, whatever the room. -/
def Phrase.Renders (indent : String) (ctx : Context) : Phrase → Prop
  | .expr .base x => ∀ room, ∃ n, x.IsBase indent ctx room n
  | .expr .type x => ∀ room, x.Renders indent ctx room
  | .expr .entry x => ∀ room, x.RendersAsEntry indent ctx room
  | .exprs .type xs => xs ≠ [] ∧ ∀ x ∈ xs, ∀ room, x.Renders indent ctx room
  | .entries _ fs | .params fs | .results fs =>
    ∀ f ∈ fs, (∀ n ∈ f.names, IsName n) ∧ ∀ room, f.type.RendersAsEntry indent ctx room
  | .fields fs => ∀ f ∈ fs, ∀ room, f.type.Renders indent ctx room
  | .methods fs =>
    ∀ f ∈ fs, f.names ≠ [] → f.type.isFunc = true ∧ ∀ room, f.type.Renders indent ctx room
  | _ => True

/-- What every room but none gives, every room gives. -/
theorem TypeExpr.Renders.ofSucc {x : TypeExpr} (h : ∀ room, x.Renders indent ctx (room + 1)) :
    ∀ room, x.Renders indent ctx room
  | 0 => .cut x
  | room + 1 => h room

/-- Where there is no room, `any` stands for the type, and it is read back. -/
theorem TypeExpr.RendersAsEntry.ofSucc {x : TypeExpr}
    (h : ∀ room, x.RendersAsEntry indent ctx (room + 1)) : ∀ room, x.RendersAsEntry indent ctx room
  | 0 => (TypeExpr.Renders.cut x).entry
  | room + 1 => h room

/-- The parts of a function are read back in every room, and so is the function. -/
theorem Phrase.renders_func (ctx : Context) {params results : List Field}
    (hparams : (Phrase.params params).Renders indent ctx)
    (hresults : (Phrase.results results).Renders indent ctx) :
    ∀ room, (TypeExpr.func params results []).Renders indent ctx room :=
  .ofSucc fun room => .func ctx (fun f mem => (hparams f mem).2 room) (fun f mem => (hparams f mem).1)
    fun f mem => (hresults f mem).2 room

theorem isName_undefined : IsName "undefined" := by decide

theorem isName_dictionaryName : IsName dictionaryName := by decide

theorem mem_spellNames {names : List String} {n : String} (mem : n ∈ names) :
    Lexeme.ident n ∈ spellNames names := by
  induction names with
  | nil => cases mem
  | cons m ms ih =>
    cases ms with
    | nil =>
      rw [List.mem_singleton.1 mem]
      exact List.mem_singleton_self _
    | cons k ks =>
      rcases List.mem_cons.1 mem with rfl | behind
      · exact List.mem_cons_self ..
      · exact List.mem_cons_of_mem _ (List.mem_cons_of_mem _ (ih behind))

/-- What a source spells is rendered as a text that is read back with the grouping of the source. By
induction over the grammar of the source: each production renders its parts for the slots that they stand
in, and is read back once they are. -/
theorem Spells.renders (plain : ctx.IsPlain) (blank : IsBlank indent) {p : Phrase} {ws : List Lexeme}
    (h : Spells p ws) (names : ∀ n, Lexeme.ident n ∈ ws → IsName n) : p.Renders indent ctx := by
  induction h with
  | @name n =>
    have isName := names n (List.mem_singleton_self _)
    exact fun room => TypeExpr.isBase_name indent plain isName room
  | @selector n sel =>
    have isName := names n (by simp)
    have isName' := names sel (by simp)
    exact fun room => TypeExpr.isBase_selector plain isName isName' room
  | @one kind x ws _ ih =>
    have first := ih names
    cases kind <;> first | trivial | exact ⟨nofun, List.forall_mem_singleton.2 first⟩
  | @more kind x xs ws vs _ _ ih ihs =>
    have first := ih fun n mem => names n (by simp [mem])
    have rest := ihs fun n mem => names n (by simp [mem])
    cases kind <;> first | trivial | exact ⟨nofun, List.forall_mem_cons.2 ⟨first, rest.2⟩⟩
  | typeName _ ih =>
    have base := ih names
    intro room
    obtain ⟨n, isBase⟩ := base room
    exact isBase.renders
  | generic _ _ ih ihs =>
    have base := ih fun n mem => names n (by simp [mem])
    obtain ⟨some, args⟩ := ihs fun n mem => names n (by simp [mem])
    refine TypeExpr.Renders.ofSucc fun room => ?_
    obtain ⟨n, isBase⟩ := base room
    exact .generic isBase some fun y mem => args y mem room
  | pointer _ ih =>
    have target := ih fun n mem => names n (by simp [mem])
    exact TypeExpr.Renders.ofSucc fun room => .pointer (target room) (target (room + 1))
  | slice _ ih | counted _ ih | array _ _ _ ih =>
    have elt := ih fun n mem => names n (by simp [mem])
    exact TypeExpr.Renders.ofSucc fun room => .array (elt room) _
  | map =>
    exact TypeExpr.Renders.ofSucc fun room =>
      .ofName isName_dictionaryName (fun _ => rfl) (fun _ => rfl) rfl rfl rfl
  | channel | channelSend | channelReceive =>
    exact TypeExpr.Renders.ofSucc fun room =>
      .ofName isName_undefined (fun _ => rfl) (fun _ => rfl) rfl rfl rfl
  | func _ _ ih ihs =>
    exact Phrase.renders_func ctx (ih fun n mem => names n (by simp [mem]))
      (ihs fun n mem => names n (by simp [mem]))
  | struct _ ih =>
    have fields := ih fun n mem => names n (by simp [mem])
    exact TypeExpr.Renders.ofSucc fun room => .struct ctx blank fun f mem => fields f mem room
  | interface _ ih =>
    have methods := ih fun n mem => names n (by simp [mem])
    refine TypeExpr.Renders.ofSucc fun room => .interface ctx blank fun f mem some => ?_
    exact ⟨(methods f mem some).1, (methods f mem some).2 room⟩
  | paren _ ih =>
    have inside := ih fun n mem => names n (by simp [mem])
    exact TypeExpr.Renders.ofSucc fun room => .paren (inside room)
  | entryType _ ih => exact fun room => (ih names room).entry
  | variadic _ ih =>
    have elt := ih fun n mem => names n (by simp [mem])
    exact TypeExpr.RendersAsEntry.ofSucc fun room => .variadic plain (elt room)
  | lastEntry _ _ ih =>
    have entry := ih fun n mem => names n (by simp [mem])
    refine List.forall_mem_singleton.2 ⟨fun n mem => names n ?_, entry⟩
    exact List.mem_append_left _ (mem_spellNames mem)
  | moreEntries _ _ _ ih ihs =>
    have entry := ih fun n mem => names n (by simp [mem])
    have rest := ihs fun n mem => names n (by simp [mem])
    refine List.forall_mem_cons.2 ⟨⟨fun n mem => names n ?_, entry⟩, rest⟩
    exact List.mem_append_left _ (List.mem_append_left _ (mem_spellNames mem))
  | noParams => exact List.forall_mem_nil _
  | noResults => exact List.forall_mem_nil _
  | someParams _ ih => exact ih fun n mem => names n (by simp [mem])
  | listedResults _ ih => exact ih names
  | bareResult _ _ ih =>
    refine List.forall_mem_singleton.2 ⟨nofun, fun room => (ih names room).entry⟩
  | noFields => exact List.forall_mem_nil _
  | noMethods => exact List.forall_mem_nil _
  | moreFields _ _ ih ihs =>
    have first := ih fun n mem => names n (by simp [mem])
    have rest := ihs fun n mem => names n (by simp [mem])
    exact List.forall_mem_cons.2 ⟨first, rest⟩
  | method _ _ _ hparams hresults ihs =>
    have func := Phrase.renders_func ctx (hparams fun n mem => names n (by simp [mem]))
      (hresults fun n mem => names n (by simp [mem]))
    have rest := ihs fun n mem => names n (by simp [mem])
    exact List.forall_mem_cons.2 ⟨fun _ => ⟨rfl, func⟩, rest⟩
  | element _ _ _ ihs =>
    have rest := ihs fun n mem => names n (by simp [mem])
    exact List.forall_mem_cons.2 ⟨fun none => absurd rfl none, rest⟩
  | operandName | literal | callEmpty | call | parenLength | sign | lengthOperand | arithmetic
  | termType | tilde | constraintTerm | union => trivial

end Typings
