import Typings.Proofs.Members.Parts
import Typings.Proofs.Precedence.Texts

/-!
# What a type is read as at its slot

`TypeExpr.Renders` says for each slot in which a type may stand what its rendering is read as there:
the form that is meant, exactly if `TypeExpr.groups` says so. A type that is made of one other type
inherits this from it. An entry of a list, which may have dots, has its own statement.
-/

namespace Typings

open TsWord TsType

/-! ## Parameter names -/

/-- A number is written with parts of names only. -/
theorem parts_toString (n : Nat) : ∀ c ∈ (toString n).toList, ofMark? c = none := by
  intro c mem
  have digit := isDigit_of_mem_toString mem
  cases mark : ofMark? c with
  | none => rfl
  | some ws =>
    unfold ofMark? at mark
    split at mark <;> first | exact absurd digit (by decide) | cases mark

/-- What a parameter is called is a name, if its own name is one. -/
theorem isName_nameAt {i j : Nat} {name : String} (h : IsName name) :
    IsName (TsParam.nameAt i j name) := by
  have placed : IsName "_arg" := by decide
  unfold TsParam.nameAt
  split
  · exact (placed.append (parts_toString i)).append (parts_toString j)
  · exact h

theorem isName_of_mem_namesAt {i : Nat} {names : List String} (h : ∀ n ∈ names, IsName n)
    {name : String} (mem : name ∈ TsParam.namesAt i names) : IsName name := by
  have placed : IsName "_arg" := by decide
  unfold TsParam.namesAt at mem
  split at mem
  · rw [List.mem_singleton.1 mem]
    exact placed.append (parts_toString i)
  · obtain ⟨j, lt, rfl⟩ := List.mem_mapIdx.1 mem
    exact isName_nameAt (h _ (List.getElem_mem lt))

/-- There are as many names as the field has, or one if it has none. -/
theorem length_namesAt (i : Nat) (names : List String) :
    (TsParam.namesAt i names).length = entryCount names := by
  unfold TsParam.namesAt entryCount
  cases names with
  | nil => rfl
  | cons n ns => simp

/-! ## Types at a slot -/

variable {indent : String} {ctx : Context}

/-- What the rendering of a type is read as with room for so many levels, for the slots in which it
may stand. -/
structure TypeExpr.Renders (indent : String) (ctx : Context) (room : Nat) (x : TypeExpr) : Prop where
  /-- As part of another type, or as a result. -/
  type : ∀ slot : Slot, slot.enclosed = true → slot.extending = false →
    (ofExpr ctx room slot x).Reads indent .type (x.grouping room slot.returned) (x.groups room)
  /-- As an operand of a union. -/
  union : (x.isFunc = true → room = 0) → ∀ slot : Slot, slot.extending = false →
    slot.returned = false →
    (ofExpr ctx room slot x).Reads indent unionOf (x.grouping room false) (x.groups room)
  /-- Before `[]`. -/
  operand : (x.isFunc = true → room = 0) → (x.isBytes = true → room = 0) →
    (ofExpr ctx room .part x).Reads indent .operand (x.grouping room false) (x.groups room)
  /-- As a member or as a parameter, where a pointer is rendered as what it points to. -/
  value : (ofExpr ctx room .part x.deref).Reads indent .type (x.deref.grouping room false)
    (x.deref.groups room)
  /-- As a function, by itself and behind the key of a method. -/
  function : x.isFunc = true → room ≠ 0 → ∃ params result fs f,
    ofExpr ctx room .part x = .arrow params result ∧
    ofExpr ctx room .plain x = .signature params result ∧
    List.Forall₂ (TsParam.ReadsAs indent) params fs ∧ result.IsReadAs indent f ∧
    (TsForm.arrow fs f = x.grouping room false ↔ x.groups room = true)

theorem isName_any : IsName "any" := by decide

/-- The `any` of a type that is cut off is read as an operand. -/
theorem reads_cut (slot : Slot) (returned : Bool) (x : TypeExpr) :
    (ofExpr ctx 0 slot x).Reads indent .operand (x.grouping 0 returned) (x.groups 0) := by
  rw [ofExpr, TypeExpr.grouping, TypeExpr.groups]
  exact .name (fun _ => rfl) isName_any

namespace TypeExpr.Renders

variable {room : Nat} {x : TypeExpr}

/-- Without room, a type is rendered as `any` and grouped so. -/
theorem cut (x : TypeExpr) : x.Renders indent ctx 0 where
  type slot _ _ := (reads_cut slot _ x).union.type
  union _ slot _ _ := (reads_cut slot false x).union
  operand _ _ := reads_cut .part false x
  value := (reads_cut .part false x.deref).union.type
  function _ some := absurd rfl some

/-- What is no function may be an operand of a union. -/
theorem unionOfNotFunc (h : x.Renders indent ctx room) (notFunc : x.isFunc = false) :
    (ofExpr ctx room .plain x).Reads indent unionOf (x.grouping room false) (x.groups room) :=
  h.union (fun func => absurd (notFunc.symm.trans func) Bool.false_ne_true) .plain rfl rfl

/-- A type that is written the same in all slots and closed in itself. -/
theorem ofOperand {t : TsType} {g : TsForm}
    (written : ∀ slot : Slot, slot.extending = false → ofExpr ctx room slot x = t)
    (meant : ∀ returned, x.grouping room returned = g) (self : x.deref = x)
    (other : x.isFunc = false) (reads : t.Reads indent .operand g (x.groups room)) :
    x.Renders indent ctx room where
  type slot _ open' := by
    rw [written slot open', meant]
    exact reads.union.type
  union _ slot open' _ := by
    rw [written slot open', meant]
    exact reads.union
  operand _ _ := by
    rw [written .part rfl, meant]
    exact reads
  value := by
    rw [self, written .part rfl, meant]
    exact reads.union.type
  function func _ := by
    rw [other] at func
    cases func

end TypeExpr.Renders

/-! ## Names -/

theorem isName_builtin {name text : String} (h : builtin? name = some text) : IsName text :=
  (by decide : ∀ text ∈ ["string", "boolean", "Error", "number"], IsName text) _ (mem_of_builtin? h)

/-- The context has no mappings and no type parameters. -/
structure Context.IsPlain (ctx : Context) : Prop where
  mappings : ctx.config.mappings = {}
  typeParams : ctx.typeParams = .empty

/-- Without mappings, a name is rendered as itself or as the word for a builtin type. -/
theorem Context.IsPlain.text_ofName (plain : ctx.IsPlain) (name indent : String) (depth : Int) :
    (ctx.ofName name).text indent depth = (builtin? name).getD name := by
  have free : ctx.typeParams.contains name = false := by
    rw [plain.typeParams]
    rfl
  have unmapped : ctx.config.mappings.find? name = none := by
    rw [plain.mappings]
    rfl
  rw [Context.ofName, free, unmapped, Option.none_or]
  cases builtin? name <;> rfl

/-- A name, plain or qualified, is written as one name. -/
structure TypeExpr.IsBase (indent : String) (ctx : Context) (room : Nat) (x : TypeExpr) (n : String) :
    Prop where
  isName : IsName n
  text : ∀ slot depth, (ofExpr ctx room slot x).text indent depth = n
  meant : ∀ returned, x.grouping room returned = .name n
  groups : x.groups room = true
  value : x.deref = x
  notFunc : x.isFunc = false

/-- A name is rendered as one word. -/
theorem TypeExpr.isBase_name (indent : String) (plain : ctx.IsPlain) {name : String}
    (isName : IsName name) (room : Nat) :
    ∃ n, (TypeExpr.name name).IsBase indent ctx room n := by
  cases room with
  | zero => exact ⟨"any", isName_any, fun _ _ => rfl, fun _ => rfl, rfl, rfl, rfl⟩
  | succ room =>
    refine ⟨(builtin? name).getD name, ?_, fun _ depth => plain.text_ofName name indent depth,
      fun _ => rfl, rfl, rfl, rfl⟩
    cases builtin : builtin? name with
    | none => exact isName
    | some text => exact isName_builtin builtin

/-- A name of a package is rendered as one word, without mappings. -/
theorem TypeExpr.isBase_selector (plain : ctx.IsPlain) {name sel : String} (isName : IsName name)
    (isName' : IsName sel) (room : Nat) :
    ∃ n, (TypeExpr.selector (.name name) sel).IsBase indent ctx room n := by
  cases room with
  | zero => exact ⟨"any", isName_any, fun _ _ => rfl, fun _ => rfl, rfl, rfl, rfl⟩
  | succ room =>
    have unmapped : ctx.config.mappings.findQualified? name sel = none := by
      rw [plain.mappings]
      rfl
    have some : name ≠ "" := by
      rintro rfl
      obtain ⟨c, cs, chars, _⟩ := isName
      cases chars
    have dot : ∀ c ∈ ".".toList, ofMark? c = none := List.forall_mem_singleton.2 rfl
    refine ⟨name ++ "." ++ sel, (isName.append dot).append isName'.parts, fun _ depth => ?_,
      fun _ => rfl, rfl, rfl, rfl⟩
    show (Context.ofSelector ctx (.name name) sel).text indent depth = _
    rw [Context.ofSelector, qualifiedName, if_neg some, unmapped]
    rfl

/-- What is rendered as one word is read back as it. -/
theorem TypeExpr.IsBase.renders {room : Nat} {x : TypeExpr} {n : String}
    (h : x.IsBase indent ctx room n) : x.Renders indent ctx room := by
  have reads : ∀ slot, (ofExpr ctx room slot x).Reads indent .operand (.name n) (x.groups room) := by
    intro slot
    rw [h.groups]
    exact .name (h.text slot) h.isName
  refine ⟨fun slot _ _ => ?_, fun _ slot _ _ => ?_, fun _ _ => ?_, ?_, fun func => ?_⟩
  · rw [h.meant]
    exact (reads slot).union.type
  · rw [h.meant]
    exact (reads slot).union
  · rw [h.meant]
    exact reads .part
  · rw [h.value, h.meant]
    exact (reads .part).union.type
  · rw [h.notFunc] at func
    cases func

/-! ## Types with one part -/

namespace TypeExpr.Renders

variable {room : Nat} {x : TypeExpr}

/-- Parentheses of the source are kept, and read back. -/
theorem paren (h : x.Renders indent ctx room) : (TypeExpr.paren x).Renders indent ctx (room + 1) :=
  .ofOperand (fun _ _ => rfl) (fun _ => rfl) rfl rfl (h.type .part rfl rfl).paren

/-- A type with a name of its own. -/
theorem ofName {text : String} (isName : IsName text)
    (written : ∀ slot, ofExpr ctx room slot x = .verbatim text)
    (meant : ∀ returned, x.grouping room returned = .name text) (groups : x.groups room = true)
    (self : x.deref = x) (other : x.isFunc = false) : x.Renders indent ctx room := by
  refine .ofOperand (fun slot _ => written slot) meant self other ?_
  rw [groups]
  exact .name (fun _ => rfl) isName

/-- What a pointer points to, before `| undefined`. -/
theorem target (h : x.Renders indent ctx room) :
    (parenIf x.isFunc (ofExpr ctx room (if x.isFunc then .part else .plain) x)).Reads indent unionOf
      (x.grouping room false) (x.groups room) := by
  cases func : x.isFunc with
  | true => exact (h.type .part rfl rfl).paren.union
  | false => exact h.unionOfNotFunc func

/-- A pointer is read back: with `undefined` where one may be missing, and as its type elsewhere. -/
theorem pointer (h : x.Renders indent ctx room) (value : x.Renders indent ctx (room + 1)) :
    (TypeExpr.pointer x).Renders indent ctx (room + 1) := by
  have missing := h.target.nullable (isWhole_grouping room false x)
  have part : (ofExpr ctx (room + 1) .part (.pointer x)).Reads indent .operand
      (.nullable (x.grouping room false)) (x.groups room) := missing.type.paren
  refine ⟨fun slot enclosed open' => ?_, fun _ slot open' kept => ?_, fun _ _ => part, ?_,
    fun func => absurd func Bool.false_ne_true⟩
  · obtain ⟨extending, enclosed, returned⟩ := slot
    cases open'
    cases enclosed
    cases returned with
    | false => exact part.union.type
    | true =>
      show (ofExpr ctx room (if x.isFunc then .part else .plain) x).Reads indent .type
        (x.grouping room false) (x.groups room)
      cases func : x.isFunc with
      | true => exact h.type .part rfl rfl
      | false => exact (h.unionOfNotFunc func).type
  · obtain ⟨extending, enclosed, returned⟩ := slot
    cases open'
    cases kept
    cases enclosed with
    | false => exact missing
    | true => exact part.union
  · exact value.type .part rfl rfl

/-- An array is read back, in the three forms that it is written in. -/
theorem array (h : x.Renders indent ctx room) (length : Option TypeExpr) :
    (TypeExpr.array x length).Renders indent ctx (room + 1) := by
  have elt := h.type .part rfl rfl
  cases byte : x.isNamed "byte" with
  | false =>
    refine .ofOperand (fun slot _ => ?_) (fun returned => ?_) rfl rfl elt.array
    · rw [ofExpr, byte]
      rfl
    · rw [grouping, byte]
      rfl
  | true =>
    have written : ∀ slot : Slot, slot.extending = false →
        ofExpr ctx (room + 1) slot (.array x length) = .bytes (ofExpr ctx room .part x) := by
      intro slot open'
      rw [ofExpr, byte, open']
      rfl
    have meant : ∀ returned, (TypeExpr.array x length).grouping (room + 1) returned =
        .bytes (x.grouping room false) := by
      intro returned
      rw [grouping, byte]
      rfl
    refine ⟨fun slot _ open' => ?_, fun _ slot open' _ => ?_, fun _ bytes => ?_, ?_,
      fun func => absurd func Bool.false_ne_true⟩
    · rw [written slot open', meant]
      exact elt.bytes.type
    · rw [written slot open', meant]
      exact elt.bytes
    · exact absurd (bytes byte) (Nat.succ_ne_zero room)
    · show (ofExpr ctx (room + 1) .part (.array x length)).Reads indent .type
        ((TypeExpr.array x length).grouping (room + 1) false) _
      rw [written .part rfl, meant]
      exact elt.bytes.type

end TypeExpr.Renders

/-! ## Entries of lists -/

/-- What an entry of a list is read as, as it is and, for a parameter, as what it points to. -/
structure TypeExpr.RendersAsEntry (indent : String) (ctx : Context) (room : Nat) (x : TypeExpr) :
    Prop where
  result : ∀ slot : Slot, slot.enclosed = true → slot.extending = false →
    ∃ f, (ofExpr ctx room slot x).IsReadAs indent f ∧
      (f = x.grouping room slot.returned ↔ x.groups room = true)
  value : ∃ f, (ofExpr ctx room .part x.deref).IsReadAs indent f ∧
    (f = x.deref.grouping room false ↔ x.deref.groups room = true)

theorem TypeExpr.Renders.entry {room : Nat} {x : TypeExpr} (h : x.Renders indent ctx room) :
    x.RendersAsEntry indent ctx room :=
  ⟨fun slot enclosed open' => (h.type slot enclosed open').isReadAs, h.value.isReadAs⟩

/-- A parameter for any number of arguments is read back as a list, or as a string for bytes. -/
theorem TypeExpr.RendersAsEntry.variadic {room : Nat} {x : TypeExpr} (plain : ctx.IsPlain)
    (h : x.Renders indent ctx room) :
    (TypeExpr.variadic x).RendersAsEntry indent ctx (room + 1) := by
  suffices ∀ slot, ∃ f, (ofExpr ctx (room + 1) slot (.variadic x)).IsReadAs indent f ∧
      (f = (TypeExpr.variadic x).grouping (room + 1) false ↔
        (TypeExpr.variadic x).groups (room + 1) = true) from
    ⟨fun slot _ _ => this slot, this .part⟩
  intro slot
  rw [ofExpr, grouping, groups]
  cases byte : x.isNamed "byte" with
  | true =>
    have isName : IsName "string" := by decide
    have string : (TsType.verbatim "string").Reads indent .operand (.name "string") true :=
      .name (fun _ => rfl) isName
    exact string.union.type.isReadAs
  | false =>
    cases func : x.isFunc with
    | true =>
      have notBytes : x.isBytes = false := by
        cases x <;> first | rfl | cases func
      rw [notBytes, Bool.and_false, Bool.not_false, Bool.and_true]
      exact (h.type .part rfl rfl).paren.list.union.type.isReadAs
    | false =>
      have notFunc : x.isFunc = true → room = 0 :=
        fun func' => absurd (func.symm.trans func') Bool.false_ne_true
      by_cases whole : x.isBytes = true → room = 0
      · have notBytes : (decide (0 < room) && x.isBytes) = false := by
          cases bytes : x.isBytes with
          | false => exact Bool.and_false _
          | true =>
            rw [whole bytes]
            rfl
        rw [notBytes, Bool.not_false, Bool.and_true]
        exact (h.operand notFunc whole).list.union.type.isReadAs
      · obtain ⟨bytes, some⟩ := Classical.not_imp.1 whole
        obtain ⟨room, rfl⟩ := Nat.exists_eq_succ_of_ne_zero some
        rw [bytes, decide_eq_true (Nat.succ_pos room), Bool.and_self, Bool.not_true, Bool.and_false]
        cases x with
        | array elt length =>
          obtain rfl := eq_name_of_isNamed bytes
          have isName : IsName "byte" := by decide
          obtain ⟨n, base⟩ := isBase_name indent plain isName room
          have elt := base.renders.type .part rfl rfl
          exact elt.listOfBytes
        | _ => cases bytes

end Typings
