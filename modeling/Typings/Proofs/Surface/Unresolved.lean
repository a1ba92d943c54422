import Typings.Proofs.Members.Parts
import Typings.Session

/-!
# Which names are reported as unresolved

A name is reported exactly if it is written out as it stands in the source: it belongs to a part of the
type or the declaration that is rendered, and nothing is known about it (`Session.mem_unknown_iff`).
Which parts are rendered is said on the source alone (`TypeExpr.Shown`, `Decl.Shown`), without looking
at what they are rendered as.
-/

namespace Typings

/-! ## Names that nothing is known about -/

/-- The expression is a name, plain or qualified, that nothing is known about: a plain one is no type
parameter in scope, has no mapping and no built-in meaning; a qualified one has neither a mapping of its
own nor one for its package. -/
inductive Context.Unresolved (ctx : Context) : TypeExpr → String → Prop where
  | plain {n : String} : n ∉ ctx.typeParams → ctx.config.mappings.find? n = none →
      builtin? n = none → Unresolved ctx (.name n) n
  | qualified {x : TypeExpr} {sel : String} : x.qualifiedName ≠ "" →
      ctx.config.mappings.find? (x.qualifiedName ++ "." ++ sel) = none →
      ctx.config.mappings.find? (x.qualifiedName ++ ".*") = none →
      Unresolved ctx (.selector x sel) (x.qualifiedName ++ "." ++ sel)

/-! ## What is rendered -/

/-- The types of a function's results that are returned: one for each name, without a trailing
error. -/
def TypeExpr.returned (results : List Field) : List TypeExpr :=
  let all := results.flatMap fun f => List.replicate (max f.names.length 1) f.type
  if endsInError results then all.dropLast else all

/-- A result that is returned is that of a field. -/
theorem TypeExpr.exists_of_mem_returned {results : List Field} {x : TypeExpr}
    (mem : x ∈ returned results) : ∃ f ∈ results, x = f.type := by
  have all : x ∈ results.flatMap fun f => List.replicate (max f.names.length 1) f.type := by
    unfold returned at mem
    dsimp only at mem
    split at mem
    · exact (List.dropLast_sublist _).subset mem
    · exact mem
  obtain ⟨f, among, repeated⟩ := List.mem_flatMap.1 all
  exact ⟨f, among, List.eq_of_mem_replicate repeated⟩

/-- The second expression is the first or one of its parts, and it is rendered when the first one is
with room for so many levels. Nothing without room is rendered. No part is rendered of a map, a channel
or a call, no length of an array, no operand but that of `~`, no member that is embedded or hidden, no
constraint of a type parameter, and no element of a variadic of bytes. -/
inductive TypeExpr.Shown : Nat → TypeExpr → TypeExpr → Prop where
  | self {room : Nat} {x : TypeExpr} : Shown (room + 1) x x
  | pointer {room : Nat} {x y : TypeExpr} : Shown room x y → Shown (room + 1) (.pointer x) y
  | variadic {room : Nat} {elt y : TypeExpr} : elt.isNamed "byte" = false → Shown room elt y →
      Shown (room + 1) (.variadic elt) y
  | array {room : Nat} {elt y : TypeExpr} {length : Option TypeExpr} : Shown room elt y →
      Shown (room + 1) (.array elt length) y
  | structMember {room : Nat} {fields : List Field} {f : Field} {name : String} {y : TypeExpr} :
      f ∈ fields → name ∈ f.names → Name.isVisible name = true → Shown room f.type.deref y →
      Shown (room + 1) (.struct fields) y
  | method {room : Nat} {methods : List Field} {f : Field} {name : String} {y : TypeExpr} :
      f ∈ methods → name ∈ f.names → Name.isVisible name = true → Shown room f.type y →
      Shown (room + 1) (.interface methods) y
  | paren {room : Nat} {x y : TypeExpr} : Shown room x y → Shown (room + 1) (.paren x) y
  | left {room : Nat} {x x' y : TypeExpr} {op : String} : Shown room x y →
      Shown (room + 1) (.binary x op x') y
  | right {room : Nat} {x x' y : TypeExpr} {op : String} : Shown room x' y →
      Shown (room + 1) (.binary x op x') y
  | param {room : Nat} {params results typeParams : List Field} {f : Field} {y : TypeExpr} :
      f ∈ params → Shown room f.type.deref y → Shown (room + 1) (.func params results typeParams) y
  | result {room : Nat} {params results typeParams : List Field} {x y : TypeExpr} :
      x ∈ returned results → Shown room x y → Shown (room + 1) (.func params results typeParams) y
  | tilde {room : Nat} {x y : TypeExpr} : Shown room x y → Shown (room + 1) (.unary "~" x) y
  | base {room : Nat} {x y : TypeExpr} {args : List TypeExpr} : Shown room x y →
      Shown (room + 1) (.generic x args) y
  | arg {room : Nat} {x arg y : TypeExpr} {args : List TypeExpr} : arg ∈ args → Shown room arg y →
      Shown (room + 1) (.generic x args) y

/-- The body of a struct or an interface that is declared takes no level by itself. -/
def TypeExpr.bodyRoom (room : Nat) : TypeExpr → Nat
  | .struct _ | .interface _ => room + 1
  | _ => room

/-- The fields of a body, among which types may be embedded. -/
def TypeExpr.bodyFields : TypeExpr → List Field
  | .struct fields | .interface fields => fields
  | _ => []

/-- The expression is rendered when the declaration is. Nothing of a hidden declaration is; of a
function, that is the expression in its type; of a type, the one in its body or in a type that is
visibly embedded. -/
inductive Decl.Shown (room : Nat) : Decl → TypeExpr → Prop where
  | body {spec : TypeSpec} {y : TypeExpr} : Name.isVisible spec.name = true →
      spec.type.Shown (spec.type.bodyRoom room) y → Shown room (.typeSpec spec) y
  | embedded {spec : TypeSpec} {x y : TypeExpr} : Name.isVisible spec.name = true →
      x ∈ Field.visibleBases spec.type.bodyFields → x.Shown room y → Shown room (.typeSpec spec) y
  | function {decl : FuncDecl} {y : TypeExpr} : decl.recv = none → Name.isVisible decl.name = true →
      decl.type.Shown room y → Shown room (.func decl) y
  | method {decl : FuncDecl} {recv : Field} {y : TypeExpr} : decl.recv = some recv →
      Name.isVisible decl.name = true → Name.isVisible recv.receiver.1 = true →
      decl.type.Shown room y → Shown room (.func decl) y

/-- The type parameters that are in scope inside a declaration: its own, and for a method those of its
receiver. -/
def Decl.scope : Decl → List String
  | .typeSpec spec => Field.allNames spec.typeParams
  | .func decl =>
    (decl.recv.map fun recv => recv.receiver.2).getD [] ++ Field.allNames decl.typeParams
  | .unknown => []

/-! ## Types that leave a name -/

/-- The name is among the unresolved names of the type. -/
def TsType.Leaves (t : TsType) (name : String) : Prop := .unresolved name ∈ t.issues

namespace TsType

variable {name : String}

/-- A word that is written unresolved leaves its own name. -/
theorem leaves_unresolved {n : String} : (unresolved n).Leaves name ↔ name = n := by
  simp [Leaves, issues]

theorem not_leaves_verbatim {text : String} : ¬(verbatim text).Leaves name := List.not_mem_nil

/-- An operator leaves what its operands leave. -/
theorem leaves_binary {x y : TsType} {op : String} :
    (binary x op y).Leaves name ↔ x.Leaves name ∨ y.Leaves name := List.mem_append

/-- A generic type leaves what its base and its arguments leave. -/
theorem leaves_generic {base : TsType} {args : List TsType} :
    (generic base args).Leaves name ↔ base.Leaves name ∨ ∃ arg ∈ args, arg.Leaves name := by
  unfold Leaves
  rw [issues, List.mem_append, issuesOfTypes_eq_flatMap, List.mem_flatMap]

theorem leaves_object {members : List TsMember} :
    (object members).Leaves name ↔ ∃ m ∈ members, m.type.Leaves name := by
  unfold Leaves
  rw [issues, issuesOfMembers_eq_flatMap, List.mem_flatMap]

theorem leaves_tuple {items : List TsType} :
    (tuple items).Leaves name ↔ ∃ x ∈ items, x.Leaves name := by
  unfold Leaves
  rw [issues, issuesOfTypes_eq_flatMap, List.mem_flatMap]

/-- Parentheses leave nothing of their own. -/
theorem leaves_parenIf (enclose : Bool) (x : TsType) :
    (parenIf enclose x).Leaves name ↔ x.Leaves name := by
  cases enclose <;> exact Iff.rfl

/-- The `undefined` beside a pointer leaves nothing of its own. -/
theorem leaves_pointerTo (slot : Slot) (isFunc : Bool) (x : TsType) :
    (pointerTo slot isFunc x).Leaves name ↔ x.Leaves name := by
  unfold pointerTo
  split
  · exact (leaves_parenIf slot.enclosed _).trans (leaves_parenIf isFunc x)
  · exact Iff.rfl

/-- A function leaves what its parameters and its result leave. -/
theorem leaves_ofFunc (slot : Slot) (params : List TsParam) (result : TsType) :
    (ofFunc slot params result).Leaves name ↔
      (∃ p ∈ params, p.type.Leaves name) ∨ result.Leaves name := by
  have parts : Issue.unresolved name ∈ issuesOfParams params ++ result.issues ↔
      (∃ p ∈ params, p.type.Leaves name) ∨ result.Leaves name := by
    rw [List.mem_append, issuesOfParams_eq_flatMap, List.mem_flatMap]
    exact Iff.rfl
  unfold ofFunc
  split
  · exact parts
  · exact parts

/-- The array around more than one result leaves nothing of its own. -/
theorem leaves_ofResults (results : List TsType) :
    (ofResults results).Leaves name ↔ ∃ x ∈ results, x.Leaves name := by
  cases results with
  | nil => simp [ofResults, not_leaves_verbatim]
  | cons x xs =>
    cases xs with
    | nil => simp [ofResults]
    | cons y ys => exact leaves_tuple

end TsType

/-! ## Parts with a name -/

section

variable {ctx : Context} {room : Nat} {name : String}

/-- A name is left exactly if the scope, the mappings and the builtin types do not resolve it. -/
theorem Context.leaves_ofName (ctx : Context) (n : String) :
    (ctx.ofName n).Leaves name ↔ ctx.Unresolved (.name n) name := by
  unfold ofName
  by_cases inScope : ctx.typeParams.contains n = true
  · rw [if_pos inScope]
    refine iff_of_false TsType.not_leaves_verbatim fun unresolved => ?_
    cases unresolved with
    | plain fresh => exact fresh (NameSet.contains_iff.1 inScope)
  · rw [if_neg inScope]
    cases known : (ctx.config.mappings.find? n).or (builtin? n) with
    | some text =>
      refine iff_of_false TsType.not_leaves_verbatim fun unresolved => ?_
      cases unresolved with
      | plain _ unmapped unknown =>
        rw [unmapped, unknown] at known
        cases known
    | none =>
      obtain ⟨unmapped, unknown⟩ := Option.or_eq_none_iff.1 known
      refine TsType.leaves_unresolved.trans ⟨?_, ?_⟩
      · rintro rfl
        exact .plain (fun mem => inScope (NameSet.contains_iff.2 mem)) unmapped unknown
      · rintro ⟨-, -, -⟩
        rfl

/-- A name of a package is left exactly if it is not resolved. -/
theorem Context.leaves_ofSelector (ctx : Context) (x : TypeExpr) (sel : String) :
    (ctx.ofSelector x sel).Leaves name ↔ ctx.Unresolved (.selector x sel) name := by
  unfold ofSelector
  by_cases anonymous : x.qualifiedName = ""
  · rw [if_pos anonymous]
    refine iff_of_false TsType.not_leaves_verbatim fun unresolved => ?_
    cases unresolved with
    | qualified named => exact named anonymous
  · rw [if_neg anonymous]
    cases known : ctx.config.mappings.findQualified? x.qualifiedName sel with
    | some text =>
      refine iff_of_false TsType.not_leaves_verbatim fun unresolved => ?_
      cases unresolved with
      | qualified _ unmapped unmapped' =>
        rw [Mappings.findQualified?, unmapped, unmapped'] at known
        cases known
    | none =>
      obtain ⟨unmapped, unmapped'⟩ := Option.or_eq_none_iff.1 known
      refine TsType.leaves_unresolved.trans ⟨?_, ?_⟩
      · rintro rfl
        exact .qualified anonymous unmapped unmapped'
      · rintro ⟨-, -, -⟩
        rfl

/-! ## Parts in lists -/

/-- Only a visible field leaves anything, and it leaves what its type does. -/
theorem exists_leaves_ofField (style : NameStyle) (f : Field) (optional colon : Bool)
    (type : TsType) :
    (∃ m ∈ TsMember.ofField style f optional colon type, m.type.Leaves name) ↔
      (∃ n ∈ f.names, Name.isVisible n = true) ∧ type.Leaves name := by
  unfold TsMember.ofField
  constructor
  · rintro ⟨m, mem, leaves⟩
    obtain ⟨n, among, rfl⟩ := List.mem_map.1 mem
    exact ⟨⟨n, List.mem_filter.1 among⟩, leaves⟩
  · rintro ⟨⟨n, visible⟩, leaves⟩
    exact ⟨_, List.mem_map_of_mem (List.mem_filter.2 visible), leaves⟩

/-- A struct leaves what the types of its visible fields leave. -/
theorem exists_leaves_structMembers (ctx : Context) (room : Nat) (fields : List Field) :
    (∃ m ∈ structMembers ctx room fields, m.type.Leaves name) ↔
      ∃ f ∈ fields, (∃ n ∈ f.names, Name.isVisible n = true) ∧
        (TsType.ofExpr ctx room .part f.type.deref).Leaves name := by
  induction fields with
  | nil => simp [structMembers]
  | cons f fields ih =>
    simp only [structMembers_cons, List.mem_append, or_and_right, exists_or, exists_leaves_ofField, ih,
      List.mem_cons, exists_eq_left]

/-- An interface leaves what its visible methods leave. -/
theorem exists_leaves_interfaceMembers (ctx : Context) (room : Nat) (methods : List Field) :
    (∃ m ∈ interfaceMembers ctx room methods, m.type.Leaves name) ↔
      ∃ f ∈ methods, (∃ n ∈ f.names, Name.isVisible n = true) ∧
        (TsType.ofExpr ctx room .plain f.type).Leaves name := by
  induction methods with
  | nil => simp [interfaceMembers]
  | cons f methods ih =>
    simp only [interfaceMembers_cons, List.mem_append, or_and_right, exists_or, exists_leaves_ofField,
      ih, List.mem_cons, exists_eq_left]

/-- A field has a parameter at least, whether it has names or not. -/
theorem TsParam.ofField_ne_nil (i : Nat) (f : Field) (type : TsType) : ofField i f type ≠ [] := by
  have names : namesAt i f.names ≠ [] := by
    unfold namesAt
    split
    · exact List.cons_ne_nil _ _
    · next some =>
      intro none
      rw [List.mapIdx_eq_nil_iff] at none
      exact some (List.isEmpty_iff.2 none)
  exact fun none => names (List.map_eq_nil_iff.1 none)

theorem exists_leaves_ofParam (i : Nat) (f : Field) (type : TsType) :
    (∃ p ∈ TsParam.ofField i f type, p.type.Leaves name) ↔ type.Leaves name := by
  constructor
  · rintro ⟨p, mem, leaves⟩
    obtain ⟨n, -, rfl⟩ := List.mem_map.1 mem
    exact leaves
  · intro leaves
    obtain ⟨p, mem⟩ := List.exists_mem_of_ne_nil _ (TsParam.ofField_ne_nil i f type)
    obtain ⟨n, -, same⟩ := List.mem_map.1 mem
    refine ⟨p, mem, ?_⟩
    rw [← same]
    exact leaves

/-- Parameters leave what their types leave, whatever their names. -/
theorem exists_leaves_paramsFrom (ctx : Context) (room i : Nat) (params : List Field) :
    (∃ p ∈ paramsFrom ctx room i params, p.type.Leaves name) ↔
      ∃ f ∈ params, (TsType.ofExpr ctx room .part f.type.deref).Leaves name := by
  induction params generalizing i with
  | nil => simp [paramsFrom]
  | cons f params ih =>
    simp only [paramsFrom_cons, List.mem_append, or_and_right, exists_or, exists_leaves_ofParam, ih,
      List.mem_cons, exists_eq_left]

/-- Each result is rendered by itself, one with several names once for each. -/
theorem resultsOf_eq_map (ctx : Context) (room : Nat) (results : List Field) :
    resultsOf ctx room results =
      (results.flatMap fun f => List.replicate (max f.names.length 1) f.type).map
        (.ofExpr ctx room .result) := by
  induction results with
  | nil => rfl
  | cons f results ih =>
    rw [resultsOf_cons, ih, List.flatMap_cons, List.map_append, List.map_replicate]

/-- What is rendered is what is returned: the results without the error at the end. -/
theorem withoutError_resultsOf (ctx : Context) (room : Nat) (results : List Field) :
    withoutError results (resultsOf ctx room results) =
      (TypeExpr.returned results).map (.ofExpr ctx room .result) := by
  unfold withoutError TypeExpr.returned
  rw [resultsOf_eq_map]
  dsimp only
  split
  · exact List.map_dropLast.symm
  · rfl

/-! ## Types -/

/-- What is rendered and unresolved is left, whatever slot it is rendered for. -/
theorem TsType.leaves_of_shown {x y : TypeExpr} (shown : x.Shown room y)
    (unresolved : ctx.Unresolved y name) (slot : Slot) : (ofExpr ctx room slot x).Leaves name := by
  induction shown generalizing slot with
  | self =>
    cases unresolved with
    | plain fresh unmapped unknown => exact (ctx.leaves_ofName _).2 (.plain fresh unmapped unknown)
    | qualified named unmapped unmapped' =>
      exact (ctx.leaves_ofSelector _ _).2 (.qualified named unmapped unmapped')
  | pointer _ ih => exact (leaves_pointerTo ..).2 (ih unresolved _)
  | variadic other _ ih =>
    rw [ofExpr, other, if_neg Bool.false_ne_true]
    exact (leaves_parenIf ..).2 (ih unresolved _)
  | array _ ih =>
    rw [ofExpr]
    split <;> exact ih unresolved _
  | structMember mem among visible _ ih =>
    refine leaves_object.2 ((exists_leaves_structMembers ..).2 ?_)
    exact ⟨_, mem, ⟨_, among, visible⟩, ih unresolved _⟩
  | method mem among visible _ ih =>
    refine leaves_object.2 ((exists_leaves_interfaceMembers ..).2 ?_)
    exact ⟨_, mem, ⟨_, among, visible⟩, ih unresolved _⟩
  | paren _ ih => exact ih unresolved _
  | left _ ih => exact leaves_binary.2 (.inl (ih unresolved _))
  | right _ ih => exact leaves_binary.2 (.inr (ih unresolved _))
  | param mem _ ih =>
    refine (leaves_ofFunc ..).2 (.inl ((exists_leaves_paramsFrom ..).2 ?_))
    exact ⟨_, mem, ih unresolved _⟩
  | result mem _ ih =>
    refine (leaves_ofFunc ..).2 (.inr ((leaves_ofResults _).2 ?_))
    rw [withoutError_resultsOf]
    exact ⟨_, List.mem_map_of_mem mem, ih unresolved _⟩
  | tilde _ ih =>
    rw [ofExpr, if_pos rfl]
    exact ih unresolved _
  | base _ ih => exact leaves_generic.2 (.inl (ih unresolved _))
  | arg mem _ ih =>
    refine leaves_generic.2 (.inr ?_)
    rw [typesOf_eq_map]
    exact ⟨_, List.mem_map_of_mem mem, ih unresolved _⟩

/-- What is left is rendered and unresolved. -/
theorem TsType.exists_shown_of_leaves {slot : Slot} {x : TypeExpr}
    (leaves : (ofExpr ctx room slot x).Leaves name) :
    ∃ y, x.Shown room y ∧ ctx.Unresolved y name := by
  induction room generalizing slot x with
  | zero =>
    rw [ofExpr] at leaves
    cases List.mem_singleton.1 leaves
  | succ room ih =>
    cases x with
    | name n => exact ⟨_, .self, (ctx.leaves_ofName n).1 leaves⟩
    | selector x sel => exact ⟨_, .self, (ctx.leaves_ofSelector x sel).1 leaves⟩
    | pointer x =>
      obtain ⟨y, shown, unresolved⟩ := ih ((leaves_pointerTo ..).1 leaves)
      exact ⟨y, .pointer shown, unresolved⟩
    | variadic elt =>
      rw [ofExpr] at leaves
      split at leaves
      · exact absurd leaves not_leaves_verbatim
      · next other =>
        obtain ⟨y, shown, unresolved⟩ := ih ((leaves_parenIf _ (ofExpr ctx room .part elt)).1 leaves)
        exact ⟨y, .variadic (Bool.eq_false_iff.2 other) shown, unresolved⟩
    | array elt length =>
      have inside : (ofExpr ctx room .part elt).Leaves name := by
        rw [ofExpr] at leaves
        split at leaves <;> exact leaves
      obtain ⟨y, shown, unresolved⟩ := ih inside
      exact ⟨y, .array shown, unresolved⟩
    | struct fields =>
      obtain ⟨f, mem, ⟨n, among, visible⟩, inside⟩ :=
        (exists_leaves_structMembers ..).1 (leaves_object.1 leaves)
      obtain ⟨y, shown, unresolved⟩ := ih inside
      exact ⟨y, .structMember mem among visible shown, unresolved⟩
    | interface methods =>
      obtain ⟨f, mem, ⟨n, among, visible⟩, inside⟩ :=
        (exists_leaves_interfaceMembers ..).1 (leaves_object.1 leaves)
      obtain ⟨y, shown, unresolved⟩ := ih inside
      exact ⟨y, .method mem among visible shown, unresolved⟩
    | paren x =>
      have inside : (ofExpr ctx room .part x).Leaves name := leaves
      obtain ⟨y, shown, unresolved⟩ := ih inside
      exact ⟨y, .paren shown, unresolved⟩
    | binary x op x' =>
      rcases leaves_binary.1 leaves with first | second
      · obtain ⟨y, shown, unresolved⟩ := ih first
        exact ⟨y, .left shown, unresolved⟩
      · obtain ⟨y, shown, unresolved⟩ := ih second
        exact ⟨y, .right shown, unresolved⟩
    | func params results typeParams =>
      rcases (leaves_ofFunc ..).1 leaves with param | result
      · obtain ⟨f, mem, inside⟩ := (exists_leaves_paramsFrom ..).1 param
        obtain ⟨y, shown, unresolved⟩ := ih inside
        exact ⟨y, .param mem shown, unresolved⟩
      · obtain ⟨t, among, inside⟩ := (leaves_ofResults _).1 result
        rw [withoutError_resultsOf] at among
        obtain ⟨x, mem, rfl⟩ := List.mem_map.1 among
        obtain ⟨y, shown, unresolved⟩ := ih inside
        exact ⟨y, .result mem shown, unresolved⟩
    | unary op x =>
      rw [ofExpr] at leaves
      split at leaves
      · next tilde =>
        subst tilde
        obtain ⟨y, shown, unresolved⟩ := ih leaves
        exact ⟨y, .tilde shown, unresolved⟩
      · cases List.mem_singleton.1 leaves
    | generic x args =>
      rcases leaves_generic.1 leaves with base | ⟨t, among, inside⟩
      · obtain ⟨y, shown, unresolved⟩ := ih base
        exact ⟨y, .base shown, unresolved⟩
      · rw [typesOf_eq_map] at among
        obtain ⟨arg, mem, rfl⟩ := List.mem_map.1 among
        obtain ⟨y, shown, unresolved⟩ := ih inside
        exact ⟨y, .arg mem shown, unresolved⟩
    | _ => exact absurd leaves not_leaves_verbatim

/-- A type leaves a name exactly if a part of it that is rendered is that name, and unresolved. -/
theorem TsType.leaves_ofExpr (ctx : Context) (room : Nat) (slot : Slot) (x : TypeExpr) :
    (ofExpr ctx room slot x).Leaves name ↔ ∃ y, x.Shown room y ∧ ctx.Unresolved y name :=
  ⟨exists_shown_of_leaves, fun ⟨_, shown, fresh⟩ => leaves_of_shown shown fresh slot⟩

end

/-! ## Declarations -/

/-- The name is among the unresolved names of the declaration. -/
def TsDecl.Leaves (t : TsDecl) (name : String) : Prop := .unresolved name ∈ t.issues

namespace TsDecl

variable {ctx : Context} {name : String}

theorem leaves_interface {doc : List String} {title : String} {params : List String}
    {bases : List TsType} {members : List TsMember} :
    (interface doc title params bases members).Leaves name ↔
      (∃ x ∈ bases, x.Leaves name) ∨ ∃ m ∈ members, m.type.Leaves name := by
  unfold Leaves
  rw [issues, List.mem_append, issuesOfTypes_eq_flatMap, issuesOfMembers_eq_flatMap,
    List.mem_flatMap, List.mem_flatMap]
  exact Iff.rfl

/-- An interface that is called, or has one method, leaves what its one member leaves. -/
theorem leaves_callable {doc lines : List String} {title key note : String} {params : List String}
    {type : TsType} :
    (interface doc title params [] [.call lines key type note]).Leaves name ↔ type.Leaves name := by
  simp [leaves_interface, TsMember.call]

/-- An interface's bases leave what the visible embedded types leave. -/
theorem leaves_basesOf (ctx : Context) (fields : List Field) :
    (∃ t ∈ basesOf ctx fields, t.Leaves name) ↔
      ∃ x ∈ Field.visibleBases fields, (TsType.ofExpr ctx ctx.room .base x).Leaves name := by
  unfold basesOf
  constructor
  · rintro ⟨t, mem, leaves⟩
    obtain ⟨x, among, rfl⟩ := List.mem_map.1 mem
    exact ⟨x, among, leaves⟩
  · rintro ⟨x, among, leaves⟩
    exact ⟨_, List.mem_map_of_mem among, leaves⟩

/-- A type that is declared leaves what its body leaves, and what its bases do. -/
theorem leaves_ofTypeSpec? (ctx : Context) {spec : TypeSpec}
    (visible : Name.isVisible spec.name = true) (name : String) :
    let inside := ctx.within (Field.allNames spec.typeParams)
    ∃ t, ofTypeSpec? ctx spec = some t ∧
      (t.Leaves name ↔
        (TsType.ofExpr inside (spec.type.bodyRoom ctx.room) .plain spec.type).Leaves name ∨
          ∃ x ∈ Field.visibleBases spec.type.bodyFields,
            (TsType.ofExpr inside ctx.room .base x).Leaves name) := by
  intro inside
  obtain ⟨title, type, typeParams, doc, comment, isAlias⟩ := spec
  rw [ofTypeSpec?, if_pos visible]
  cases type with
  | struct fields =>
    refine ⟨_, rfl, leaves_interface.trans (or_comm.trans (or_congr ?_ ?_))⟩
    · exact TsType.leaves_object.symm
    · exact leaves_basesOf inside fields
  | interface methods =>
    refine ⟨_, rfl, leaves_interface.trans (or_comm.trans (or_congr ?_ ?_))⟩
    · exact TsType.leaves_object.symm
    · exact leaves_basesOf inside methods
  | func params results typeParams =>
    refine ⟨_, rfl, leaves_callable.trans (or_iff_left ?_).symm⟩
    rintro ⟨x, ⟨⟩, -⟩
  | _ =>
    refine ⟨_, rfl, (or_iff_left ?_).symm⟩
    rintro ⟨x, ⟨⟩, -⟩

/-- A type leaves exactly the names that it shows unresolved. -/
theorem leaves_typeSpec (ctx : Context) (spec : TypeSpec) (name : String) :
    (∃ t ∈ ofTypeSpec? ctx spec, t.Leaves name) ↔ ∃ y, (Decl.typeSpec spec).Shown ctx.room y ∧
      (ctx.within (Field.allNames spec.typeParams)).Unresolved y name := by
  constructor
  · rintro ⟨t, made, leaves⟩
    have visible : Name.isVisible spec.name = true := by
      unfold ofTypeSpec? at made
      split at made
      · assumption
      · cases made
    obtain ⟨t', made', iff⟩ := leaves_ofTypeSpec? ctx visible name
    cases made'.symm.trans made
    rcases iff.1 leaves with body | ⟨x, base, inside⟩
    · obtain ⟨y, shown, unresolved⟩ := TsType.exists_shown_of_leaves body
      exact ⟨y, .body visible shown, unresolved⟩
    · obtain ⟨y, shown, unresolved⟩ := TsType.exists_shown_of_leaves inside
      exact ⟨y, .embedded visible base shown, unresolved⟩
  · rintro ⟨y, shown, unresolved⟩
    cases shown with
    | body visible shown =>
      obtain ⟨t, made, iff⟩ := leaves_ofTypeSpec? ctx visible name
      exact ⟨t, made, iff.2 (.inl (TsType.leaves_of_shown shown unresolved _))⟩
    | embedded visible base shown =>
      obtain ⟨t, made, iff⟩ := leaves_ofTypeSpec? ctx visible name
      exact ⟨t, made, iff.2 (.inr ⟨_, base, TsType.leaves_of_shown shown unresolved _⟩)⟩

/-- A function leaves exactly the names that it shows unresolved. -/
theorem leaves_function (ctx : Context) {decl : FuncDecl} (recv : decl.recv = none) (name : String) :
    (∃ t ∈ ofFunction? ctx decl, t.Leaves name) ↔ ∃ y, (Decl.func decl).Shown ctx.room y ∧
      (ctx.within (Field.allNames decl.typeParams)).Unresolved y name := by
  constructor
  · rintro ⟨t, made, leaves⟩
    unfold ofFunction? at made
    split at made
    · next visible =>
      cases made
      obtain ⟨y, shown, unresolved⟩ := TsType.exists_shown_of_leaves (leaves_callable.1 leaves)
      exact ⟨y, .function recv visible shown, unresolved⟩
    · cases made
  · rintro ⟨y, shown, unresolved⟩
    cases shown with
    | function _ visible shown =>
      refine ⟨_, if_pos visible, leaves_callable.2 ?_⟩
      exact TsType.leaves_of_shown shown unresolved _
    | method recv' => cases recv.symm.trans recv'

/-- A method leaves exactly the names that it shows unresolved, the receiver's parameters being in scope. -/
theorem leaves_method (ctx : Context) {decl : FuncDecl} {field : Field}
    (recv : decl.recv = some field) (name : String) :
    (∃ t ∈ ofMethod? ctx decl field, t.Leaves name) ↔ ∃ y, (Decl.func decl).Shown ctx.room y ∧
      (ctx.within (field.receiver.2 ++ Field.allNames decl.typeParams)).Unresolved y name := by
  constructor
  · rintro ⟨t, made, leaves⟩
    unfold ofMethod? at made
    dsimp only at made
    split at made
    · next visible =>
      cases made
      obtain ⟨own, type⟩ := Bool.and_eq_true_iff.1 visible
      obtain ⟨y, shown, unresolved⟩ := TsType.exists_shown_of_leaves (leaves_callable.1 leaves)
      exact ⟨y, .method recv own type shown, unresolved⟩
    · cases made
  · rintro ⟨y, shown, unresolved⟩
    cases shown with
    | function recv' => cases recv'.symm.trans recv
    | method recv' own type shown =>
      cases recv'.symm.trans recv
      refine ⟨_, if_pos (Bool.and_eq_true_iff.2 ⟨own, type⟩), leaves_callable.2 ?_⟩
      exact TsType.leaves_of_shown shown unresolved _

/-- A declaration leaves exactly the names that nothing is known about, among the expressions that are
rendered in it. -/
theorem leaves_ofDecl (ctx : Context) {d : Decl} (known : d ≠ .unknown) :
    ∃ rendered, ofDecl ctx d = .ok rendered ∧ ∀ name, (∃ t ∈ rendered, t.Leaves name) ↔
      ∃ y, d.Shown ctx.room y ∧ (ctx.within d.scope).Unresolved y name := by
  cases d with
  | typeSpec spec => exact ⟨ofTypeSpec? ctx spec, rfl, leaves_typeSpec ctx spec⟩
  | func decl =>
    cases recv : decl.recv with
    | none =>
      refine ⟨ofFunction? ctx decl, by rw [ofDecl, recv], ?_⟩
      rw [Decl.scope, recv]
      exact leaves_function ctx recv
    | some field =>
      refine ⟨ofMethod? ctx decl field, by rw [ofDecl, recv], ?_⟩
      rw [Decl.scope, recv]
      exact leaves_method ctx recv
  | unknown => exact absurd rfl known

end TsDecl

end Typings
