import Mathlib.Data.List.Basic
import Typings.Proofs.Parser.Uniform
import Typings.Proofs.Surface.Erasure
import Typings.Proofs.Surface.Reported

/-!
# Fields with several names

Names that share a type are only a shorter way to write each of them with that type. A declaration that
has been parsed is rendered alike when each field with several names, at whatever depth it stands, is
written as one field for each name (`File.decl_ungroup`).

A parameter that could not name a variable is the exception, as the name made for it tells its place
among the fields. So the law asks that none that is rendered is a reserved word.
-/

namespace Typings

/-- A field with several names as one field for each of them. -/
def Field.apart (f : Field) : List Field :=
  match f.names with
  | _ :: _ :: _ => f.names.map fun name => { f with names := [name] }
  | _ => [f]

mutual

/-- A type without fields that have several names. -/
def TypeExpr.ungroup : TypeExpr → TypeExpr
  | .selector x sel => .selector x.ungroup sel
  | .pointer x => .pointer x.ungroup
  | .variadic elt => .variadic elt.ungroup
  | .array elt length => .array elt.ungroup (ungroupedType? length)
  | .map key value => .map key.ungroup value.ungroup
  | .channel dir value => .channel dir value.ungroup
  | .func params results typeParams =>
    .func (ungroupedFields params) (ungroupedFields results) (ungroupedFields typeParams)
  | .struct fields => .struct (ungroupedFields fields)
  | .interface methods => .interface (ungroupedFields methods)
  | .generic x args => .generic x.ungroup (ungroupedTypes args)
  | .paren x => .paren x.ungroup
  | .binary x op y => .binary x.ungroup op y.ungroup
  | .unary op x => .unary op x.ungroup
  | .call fn args => .call fn.ungroup (ungroupedTypes args)
  | .composite type elts => .composite (ungroupedType? type) (ungroupedTypes elts)
  | x => x

/-- A type without fields that have several names, if there is one. -/
def ungroupedType? : Option TypeExpr → Option TypeExpr
  | none => none
  | some x => some x.ungroup

/-- Types without fields that have several names. -/
def ungroupedTypes : List TypeExpr → List TypeExpr
  | [] => []
  | x :: xs => x.ungroup :: ungroupedTypes xs

/-- Fields with one name each at most, and types of the same kind. -/
def ungroupedFields : List Field → List Field
  | [] => []
  | ⟨names, x, doc, comment, tag⟩ :: fields =>
    Field.apart ⟨names, x.ungroup, doc, comment, tag⟩ ++ ungroupedFields fields

end

/-- A declaration without fields that have several names. -/
def Decl.ungroup : Decl → Decl
  | .typeSpec spec => .typeSpec { spec with
      type := spec.type.ungroup
      typeParams := ungroupedFields spec.typeParams }
  | .func decl => .func { decl with
      params := ungroupedFields decl.params
      results := ungroupedFields decl.results
      typeParams := ungroupedFields decl.typeParams
      recv := decl.recv.map fun recv => { recv with type := recv.type.ungroup } }
  | .unknown => .unknown

/-! ## One field for each name -/

namespace Field

/-- A rule that gives something for each name gives the same for one field for each of them. -/
theorem flatMap_apart {β : Type} {g : Field → List β}
    (each : ∀ (f : Field) name other names, g { f with names := name :: other :: names } =
      g { f with names := [name] } ++ g { f with names := other :: names }) (f : Field) :
    f.apart.flatMap g = g f := by
  obtain ⟨names, type, doc, comment, tag⟩ := f
  match names with
  | [] => exact List.flatMap_singleton ..
  | [name] => exact List.flatMap_singleton ..
  | name :: other :: names =>
    unfold apart
    dsimp only
    induction names generalizing name other with
    | nil =>
      rw [each ⟨[], type, doc, comment, tag⟩]
      simp
    | cons next names ih =>
      rw [List.map_cons, List.flatMap_cons, ih, ← each ⟨[], type, doc, comment, tag⟩]

theorem names_apart (f : Field) : f.apart.flatMap names = f.names := flatMap_apart (fun _ _ _ _ => rfl) f

theorem type_of_mem_apart {f g : Field} (mem : g ∈ f.apart) : g.type = f.type := by
  unfold apart at mem
  split at mem
  · obtain ⟨name, -, rfl⟩ := List.mem_map.1 mem
    rfl
  · rw [List.mem_singleton.1 mem]

/-- The names of each part are names of the field, and each part has some if the field does. -/
theorem names_of_mem_apart {f g : Field} (mem : g ∈ f.apart) :
    (f.names ≠ [] → g.names ≠ []) ∧ ∀ name ∈ g.names, name ∈ f.names := by
  unfold apart at mem
  split at mem
  · obtain ⟨name, among, rfl⟩ := List.mem_map.1 mem
    exact ⟨fun _ => List.cons_ne_nil _ _, fun n here => List.mem_singleton.1 here ▸ among⟩
  · rw [List.mem_singleton.1 mem]
    exact ⟨id, fun _ here => here⟩

theorem apart_ne_nil (f : Field) : f.apart ≠ [] := by
  unfold apart
  split
  · next names =>
    rw [names]
    exact List.cons_ne_nil _ _
  · exact List.cons_ne_nil _ _

theorem apart_of_names_eq_nil {f : Field} (unnamed : f.names = []) : f.apart = [f] := by
  rw [apart, unnamed]

/-- The field with a type without several names. -/
def ungroupType (f : Field) : Field := { f with type := f.type.ungroup }

end Field

theorem ungroupedFields_cons (f : Field) (fields : List Field) :
    ungroupedFields (f :: fields) = f.ungroupType.apart ++ ungroupedFields fields := by
  obtain ⟨names, type, doc, comment, tag⟩ := f
  rfl

theorem ungroupedFields_eq_flatMap (fields : List Field) :
    ungroupedFields fields = fields.flatMap fun f => f.ungroupType.apart := by
  induction fields with
  | nil => rfl
  | cons f fields ih => rw [ungroupedFields_cons, ih, List.flatMap_cons]

@[simp] theorem allNames_ungroupedFields (fields : List Field) :
    Field.allNames (ungroupedFields fields) = Field.allNames fields := by
  induction fields with
  | nil => rfl
  | cons f fields ih =>
    have first : f.ungroupType.apart.flatMap Field.names = f.names := f.ungroupType.names_apart
    rw [Field.allNames] at ih ⊢
    rw [ungroupedFields_cons, List.flatMap_append, first, ih]
    rfl

/-! ## What is left of a type -/

namespace TypeExpr

@[simp] theorem name?_ungroup (x : TypeExpr) : x.ungroup.name? = x.name? := by
  cases x <;> rfl

@[simp] theorem isNamed_ungroup (name : String) (x : TypeExpr) :
    x.ungroup.isNamed name = x.isNamed name := by
  rw [isNamed, isNamed, name?_ungroup]

@[simp] theorem isFunc_ungroup (x : TypeExpr) : x.ungroup.isFunc = x.isFunc := by
  cases x <;> rfl

@[simp] theorem isPointer_ungroup (x : TypeExpr) : x.ungroup.isPointer = x.isPointer := by
  cases x <;> rfl

@[simp] theorem isVariadic_ungroup (x : TypeExpr) : x.ungroup.isVariadic = x.isVariadic := by
  cases x <;> rfl

@[simp] theorem deref_ungroup (x : TypeExpr) : x.ungroup.deref = x.deref.ungroup := by
  cases x <;> rfl

@[simp] theorem unparen_ungroup (x : TypeExpr) : x.ungroup.unparen = x.unparen.ungroup := by
  cases x <;> rfl

@[simp] theorem visibleName_ungroup (x : TypeExpr) : x.ungroup.visibleName = x.visibleName := by
  rw [visibleName, visibleName, deref_ungroup]
  cases x.deref with
  | generic base args => cases base <;> rfl
  | _ => rfl

/-- A qualifier has no fields. -/
@[simp] theorem qualifiedName_ungroup : ∀ x : TypeExpr, x.ungroup.qualifiedName = x.qualifiedName
  | .selector x sel => by rw [ungroup, qualifiedName, qualifiedName, qualifiedName_ungroup x]
  | .name _ | .literal .. | .counted _ | .pointer _ | .variadic _ | .array .. | .map .. | .channel ..
  | .func .. | .struct _ | .interface _ | .generic .. | .paren _ | .binary .. | .unary .. | .call ..
  | .composite .. | .unknown => rfl

end TypeExpr

theorem filterMap_name?_ungroupedTypes (xs : List TypeExpr) :
    (ungroupedTypes xs).filterMap TypeExpr.name? = xs.filterMap TypeExpr.name? := by
  induction xs with
  | nil => rfl
  | cons x xs ih =>
    rw [ungroupedTypes, List.filterMap_cons, List.filterMap_cons, TypeExpr.name?_ungroup, ih]

/-- The type of the last field is the same. -/
theorem endsInError_ungroupedFields (results : List Field) :
    endsInError (ungroupedFields results) = endsInError results := by
  have last : (ungroupedFields results).getLast?.map (fun f => f.type.isNamed "error") =
      results.getLast?.map fun f => f.type.isNamed "error" := by
    induction results with
    | nil => rfl
    | cons f results ih =>
      rw [ungroupedFields_cons]
      cases results with
      | nil =>
        rw [ungroupedFields, List.append_nil]
        cases last : f.ungroupType.apart.getLast? with
        | none => exact absurd (List.getLast?_eq_none_iff.1 last) f.ungroupType.apart_ne_nil
        | some g =>
          have type : g.type = f.type.ungroup := Field.type_of_mem_apart (List.mem_of_getLast? last)
          simp [type]
      | cons h results =>
        have more : ungroupedFields (h :: results) ≠ [] := by
          rw [ungroupedFields_cons]
          exact fun none => h.ungroupType.apart_ne_nil (List.append_eq_nil_iff.1 none).1
        have last := List.getLast?_eq_some_getLast more
        rw [List.getLast?_append, last, Option.some_or, ← last, ih, List.getLast?_cons_cons]
  rw [endsInError, endsInError, last]

/-! ## Types are rendered alike -/

/-- Each parameter is written under its own name, or none has one. -/
def Field.OwnNames (params : List Field) : Prop :=
  Field.Uniform params ∧
    ∀ name ∈ Field.allNames params, name ≠ "" ∧ Name.isReserved name = false

theorem TsParam.nameAt_own {name : String} (own : name ≠ "" ∧ Name.isReserved name = false)
    (i j : Nat) : nameAt i j name = name := by
  rw [nameAt, if_neg]
  simp [own]

/-- Parameters that are written under their own names do not tell their places. -/
theorem TsParam.ofField_own {f : Field} (named : f.names ≠ [])
    (own : ∀ name ∈ f.names, name ≠ "" ∧ Name.isReserved name = false) (i : Nat) (type : TsType) :
    ofField i f type =
      f.names.map fun name =>
        { spread := f.type.isVariadic, name := name, type := type, note := noteOf f.comment } := by
  have some : f.names.isEmpty = false := List.isEmpty_eq_false_iff.2 named
  have same : (f.names.mapIdx fun j name => nameAt i j name) = f.names := by
    refine List.ext_getElem (List.length_mapIdx ..) fun n _ bound => ?_
    rw [List.getElem_mapIdx, nameAt_own (own _ (List.getElem_mem bound))]
  rw [ofField, namesAt, some, if_neg Bool.false_ne_true, same]

section lists

variable {ctx : Context} {room : Nat}

/-- What is rendered with so much room has parameters with names of their own. -/
def TypeExpr.ParamsOwn (room : Nat) (x : TypeExpr) : Prop :=
  ∀ params results typeParams, x.Shown room (.func params results typeParams) →
    Field.OwnNames params

theorem typesOf_ungrouped {xs : List TypeExpr}
    (alike : ∀ x ∈ xs, TsType.ofExpr ctx room .part x.ungroup = .ofExpr ctx room .part x) :
    typesOf ctx room (ungroupedTypes xs) = typesOf ctx room xs := by
  induction xs with
  | nil => rfl
  | cons x xs ih =>
    obtain ⟨first, others⟩ := List.forall_mem_cons.1 alike
    rw [ungroupedTypes, typesOf, typesOf, first, ih others]

/-- A field gives a member for each of its names. -/
theorem TsMember.ofField_each (style : NameStyle) (f : Field) (name other : String)
    (names : List String) (optional colon : Bool) (type : TsType) :
    ofField style { f with names := name :: other :: names } optional colon type =
      ofField style { f with names := [name] } optional colon type
        ++ ofField style { f with names := other :: names } optional colon type := by
  have apart : name :: other :: names = [name] ++ other :: names := rfl
  unfold ofField
  dsimp only
  rw [apart, List.filter_append, List.map_append]

/-- What a field gives is the same for a type that is rendered alike, if a name of it is visible. -/
theorem TsMember.ofField_ungroupType {style : NameStyle} {f : Field} {optional colon : Bool}
    {type type' : TsType}
    (alike : ∀ name ∈ f.names, Name.isVisible name = true → type' = type) :
    ofField style f.ungroupType optional colon type' = ofField style f optional colon type := by
  refine List.map_congr_left fun name mem => ?_
  obtain ⟨among, visible⟩ := List.mem_filter.1 mem
  rw [alike name among visible]
  rfl

theorem structMembers_eq_flatMap (ctx : Context) (room : Nat) (fields : List Field) :
    structMembers ctx room fields = fields.flatMap fun f =>
      TsMember.ofField ctx.config.fieldNames f f.type.isPointer true
        (.ofExpr ctx room .part f.type.deref) := by
  induction fields with
  | nil => rfl
  | cons f fields ih => rw [structMembers_cons, ih, List.flatMap_cons]

theorem interfaceMembers_eq_flatMap (ctx : Context) (room : Nat) (methods : List Field) :
    interfaceMembers ctx room methods = methods.flatMap fun f =>
      TsMember.ofField ctx.config.methodNames f false (!f.type.isFunc)
        (.ofExpr ctx room .plain f.type) := by
  induction methods with
  | nil => rfl
  | cons f methods ih => rw [interfaceMembers_cons, ih, List.flatMap_cons]

theorem structMembers_ungrouped {fields : List Field}
    (alike : ∀ f ∈ fields, ∀ name ∈ f.names, Name.isVisible name = true →
      TsType.ofExpr ctx room .part f.type.deref.ungroup = .ofExpr ctx room .part f.type.deref) :
    structMembers ctx room (ungroupedFields fields) = structMembers ctx room fields := by
  induction fields with
  | nil => rfl
  | cons f fields ih =>
    obtain ⟨first, others⟩ := List.forall_mem_cons.1 alike
    rw [ungroupedFields_cons, structMembers_append, ih others, structMembers_cons,
      structMembers_eq_flatMap, Field.flatMap_apart fun f _ _ _ => TsMember.ofField_each ..]
    refine congrArg (· ++ _) ?_
    dsimp only [Field.ungroupType]
    rw [TypeExpr.isPointer_ungroup, TypeExpr.deref_ungroup]
    exact TsMember.ofField_ungroupType first

theorem interfaceMembers_ungrouped {methods : List Field}
    (alike : ∀ f ∈ methods, ∀ name ∈ f.names, Name.isVisible name = true →
      TsType.ofExpr ctx room .plain f.type.ungroup = .ofExpr ctx room .plain f.type) :
    interfaceMembers ctx room (ungroupedFields methods) = interfaceMembers ctx room methods := by
  induction methods with
  | nil => rfl
  | cons f methods ih =>
    obtain ⟨first, others⟩ := List.forall_mem_cons.1 alike
    rw [ungroupedFields_cons, interfaceMembers_append, ih others, interfaceMembers_cons,
      interfaceMembers_eq_flatMap, Field.flatMap_apart fun f _ _ _ => TsMember.ofField_each ..]
    refine congrArg (· ++ _) ?_
    dsimp only [Field.ungroupType]
    rw [TypeExpr.isFunc_ungroup]
    exact TsMember.ofField_ungroupType first

/-- Without names, the fields stay as they are, and so do their places. -/
theorem paramsFrom_ungrouped_unnamed {params : List Field} (unnamed : ∀ f ∈ params, f.names = [])
    (alike : ∀ f ∈ params,
      TsType.ofExpr ctx room .part f.type.deref.ungroup = .ofExpr ctx room .part f.type.deref)
    (i : Nat) :
    paramsFrom ctx room i (ungroupedFields params) = paramsFrom ctx room i params := by
  induction params generalizing i with
  | nil => rfl
  | cons f params ih =>
    obtain ⟨first, others⟩ := List.forall_mem_cons.1 alike
    obtain ⟨nameless, unnamed⟩ := List.forall_mem_cons.1 unnamed
    have apart : f.ungroupType.apart = [f.ungroupType] := Field.apart_of_names_eq_nil nameless
    rw [ungroupedFields_cons, apart, List.singleton_append, paramsFrom_cons, paramsFrom_cons,
      ih unnamed others]
    refine congrArg (· ++ _) ?_
    dsimp only [Field.ungroupType, TsParam.ofField]
    rw [TypeExpr.deref_ungroup, first, TypeExpr.isVariadic_ungroup]

/-- What a field with names gives for each of them, wherever it stands. -/
def TsParam.named (ctx : Context) (room : Nat) (f : Field) : List TsParam :=
  f.names.map fun name =>
    { spread := f.type.isVariadic, name := name,
      type := .ofExpr ctx room .part f.type.deref, note := noteOf f.comment }

theorem paramsFrom_named {params : List Field} (named : ∀ f ∈ params, f.names ≠ [])
    (own : ∀ f ∈ params, ∀ name ∈ f.names, name ≠ "" ∧ Name.isReserved name = false) (i : Nat) :
    paramsFrom ctx room i params = params.flatMap (TsParam.named ctx room) := by
  induction params generalizing i with
  | nil => rfl
  | cons f params ih =>
    obtain ⟨first, others⟩ := List.forall_mem_cons.1 named
    obtain ⟨own, owns⟩ := List.forall_mem_cons.1 own
    rw [paramsFrom_cons, TsParam.ofField_own first own, ih others owns, List.flatMap_cons]
    rfl

/-- With names of their own, parameters are written alike wherever their fields stand. -/
theorem paramsFrom_ungrouped_named {params : List Field} (named : ∀ f ∈ params, f.names ≠ [])
    (own : ∀ f ∈ params, ∀ name ∈ f.names, name ≠ "" ∧ Name.isReserved name = false)
    (alike : ∀ f ∈ params,
      TsType.ofExpr ctx room .part f.type.deref.ungroup = .ofExpr ctx room .part f.type.deref)
    (i : Nat) :
    paramsFrom ctx room i (ungroupedFields params) = paramsFrom ctx room i params := by
  have named' : ∀ g ∈ ungroupedFields params, g.names ≠ [] := by
    rw [ungroupedFields_eq_flatMap]
    intro g mem
    obtain ⟨f, among, part⟩ := List.mem_flatMap.1 mem
    exact (Field.names_of_mem_apart part).1 (named f among)
  have own' : ∀ g ∈ ungroupedFields params, ∀ name ∈ g.names,
      name ≠ "" ∧ Name.isReserved name = false := by
    rw [ungroupedFields_eq_flatMap]
    intro g mem name here
    obtain ⟨f, among, part⟩ := List.mem_flatMap.1 mem
    exact own f among name ((Field.names_of_mem_apart part).2 name here)
  rw [paramsFrom_named named' own', paramsFrom_named named own, ungroupedFields_eq_flatMap,
    List.flatMap_assoc]
  refine List.flatMap_congr fun f among => ?_
  rw [Field.flatMap_apart fun _ _ _ _ => rfl, TsParam.named, TsParam.named]
  dsimp only [Field.ungroupType]
  rw [TypeExpr.deref_ungroup, alike f among, TypeExpr.isVariadic_ungroup]

theorem paramsFrom_ungrouped {params : List Field} (own : Field.OwnNames params)
    (alike : ∀ f ∈ params,
      TsType.ofExpr ctx room .part f.type.deref.ungroup = .ofExpr ctx room .part f.type.deref)
    (i : Nat) :
    paramsFrom ctx room i (ungroupedFields params) = paramsFrom ctx room i params := by
  obtain ⟨unnamed | named, names⟩ := own
  · exact paramsFrom_ungrouped_unnamed unnamed alike i
  · refine paramsFrom_ungrouped_named named (fun f mem name here => ?_) alike i
    exact names name (List.mem_flatMap.2 ⟨f, mem, here⟩)

/-- The types that are returned are the same, one for each name. -/
theorem returned_ungrouped (results : List Field) :
    TypeExpr.returned (ungroupedFields results) =
      (TypeExpr.returned results).map TypeExpr.ungroup := by
  have all : (ungroupedFields results).flatMap (fun f => List.replicate (max f.names.length 1) f.type)
      = (results.flatMap fun f => List.replicate (max f.names.length 1) f.type).map
          TypeExpr.ungroup := by
    rw [ungroupedFields_eq_flatMap, List.flatMap_assoc, List.map_flatMap]
    refine List.flatMap_congr fun f _ => ?_
    rw [Field.flatMap_apart, List.map_replicate]
    · rfl
    · intro f name other names
      have count : max (name :: other :: names).length 1 =
          max [name].length 1 + max (other :: names).length 1 := by
        simp
        omega
      dsimp only
      rw [count, List.replicate_add]
  unfold TypeExpr.returned
  dsimp only
  rw [all, endsInError_ungroupedFields]
  split
  · exact List.map_dropLast.symm
  · rfl

end lists

/-- A type is rendered alike without fields that have several names. The induction is on the room; the
parameters of a part that is rendered have names of their own, as those of the whole have. -/
theorem ofExpr_ungroup (ctx : Context) (room : Nat) (slot : Slot) (x : TypeExpr)
    (own : x.ParamsOwn room) : TsType.ofExpr ctx room slot x.ungroup = .ofExpr ctx room slot x := by
  induction room generalizing slot x with
  | zero => rw [TsType.ofExpr, TsType.ofExpr]
  | succ room ih =>
    cases x with
    | pointer x =>
      have part := ih (if x.isFunc then .part else .plain) x fun _ _ _ h => own _ _ _ (.pointer h)
      rw [TypeExpr.ungroup, TsType.ofExpr, TsType.ofExpr, TypeExpr.isFunc_ungroup, part]
    | variadic elt =>
      rw [TypeExpr.ungroup, TsType.ofExpr, TsType.ofExpr, TypeExpr.isNamed_ungroup,
        TypeExpr.isFunc_ungroup]
      split
      · rfl
      · next other =>
        rw [ih .part elt fun _ _ _ h => own _ _ _ (.variadic (Bool.eq_false_iff.2 other) h)]
    | array elt length =>
      rw [TypeExpr.ungroup, TsType.ofExpr, TsType.ofExpr, TypeExpr.isNamed_ungroup,
        ih .part elt fun _ _ _ h => own _ _ _ (.array h)]
    | struct fields =>
      rw [TypeExpr.ungroup, TsType.ofExpr, TsType.ofExpr, structMembers_ungrouped]
      intro f mem name here visible
      exact ih .part _ fun _ _ _ h => own _ _ _ (.structMember mem here visible h)
    | interface methods =>
      rw [TypeExpr.ungroup, TsType.ofExpr, TsType.ofExpr, interfaceMembers_ungrouped]
      intro f mem name here visible
      exact ih .plain _ fun _ _ _ h => own _ _ _ (.method mem here visible h)
    | paren x =>
      rw [TypeExpr.ungroup, TsType.ofExpr, TsType.ofExpr, ih .part x fun _ _ _ h => own _ _ _ (.paren h)]
    | binary x op y =>
      rw [TypeExpr.ungroup, TsType.ofExpr, TsType.ofExpr, ih .part x fun _ _ _ h => own _ _ _ (.left h),
        ih .part y fun _ _ _ h => own _ _ _ (.right h)]
    | func params results typeParams =>
      have inParams : ∀ f ∈ params,
          TsType.ofExpr ctx room .part f.type.deref.ungroup = .ofExpr ctx room .part f.type.deref :=
        fun f mem => ih .part _ fun _ _ _ h => own _ _ _ (.param mem h)
      rw [TypeExpr.ungroup, TsType.ofExpr, TsType.ofExpr, withoutError_resultsOf,
        withoutError_resultsOf, paramsFrom_ungrouped (own _ _ _ .self) inParams, returned_ungrouped,
        List.map_map]
      refine congrArg (fun types => TsType.ofFunc slot _ (.ofResults types)) ?_
      exact List.map_congr_left fun x mem => ih .result x fun _ _ _ h => own _ _ _ (.result mem h)
    | unary op x =>
      rw [TypeExpr.ungroup, TsType.ofExpr, TsType.ofExpr]
      split
      · next tilde =>
        subst tilde
        exact ih .plain x fun _ _ _ h => own _ _ _ (.tilde h)
      · rfl
    | generic x args =>
      rw [TypeExpr.ungroup, TsType.ofExpr, TsType.ofExpr, ih .plain x fun _ _ _ h => own _ _ _ (.base h),
        typesOf_ungrouped]
      exact fun arg mem => ih .part arg fun _ _ _ h => own _ _ _ (.arg mem h)
    | selector x sel =>
      rw [TypeExpr.ungroup, TsType.ofExpr, TsType.ofExpr, Context.ofSelector, Context.ofSelector,
        TypeExpr.qualifiedName_ungroup]
    | _ => rfl

/-! ## Declarations are rendered alike -/

section declarations

variable {ctx : Context}

theorem visibleBases_ungrouped (fields : List Field) :
    Field.visibleBases (ungroupedFields fields) =
      (Field.visibleBases fields).map TypeExpr.ungroup := by
  induction fields with
  | nil => rfl
  | cons f fields ih =>
    unfold Field.visibleBases at ih ⊢
    rw [ungroupedFields_cons, List.filter_append, List.map_append, ih, ← List.singleton_append,
      List.filter_append, List.map_append, List.map_append]
    refine congrArg (· ++ _) ?_
    by_cases unnamed : f.names = []
    · rw [Field.apart_of_names_eq_nil (show f.ungroupType.names = [] from unnamed)]
      simp only [List.filter_singleton, Field.ungroupType, TypeExpr.visibleName_ungroup]
      cases f.names.isEmpty && Name.isVisible f.type.visibleName <;> rfl
    · have none : ∀ g ∈ f.ungroupType.apart,
          ¬(g.names.isEmpty && Name.isVisible g.type.visibleName) = true := by
        intro g mem base
        have empty := List.isEmpty_iff.1 (Bool.and_eq_true_iff.1 base).1
        exact (Field.names_of_mem_apart mem).1 unnamed empty
      have bare : f.names.isEmpty = false := List.isEmpty_eq_false_iff.2 unnamed
      rw [List.filter_eq_nil_iff.2 none]
      simp [bare]

theorem basesOf_ungrouped (fields : List Field)
    (own : ∀ x ∈ Field.visibleBases fields, x.ParamsOwn ctx.room) :
    TsDecl.basesOf ctx (ungroupedFields fields) = TsDecl.basesOf ctx fields := by
  rw [TsDecl.basesOf, TsDecl.basesOf, visibleBases_ungrouped, List.map_map]
  exact List.map_congr_left fun x mem => ofExpr_ungroup ctx ctx.room .base x (own x mem)

/-- What is rendered of the declaration with so much room has parameters with names of their own. -/
def Decl.ParamsOwn (room : Nat) (d : Decl) : Prop :=
  ∀ params results typeParams, d.Shown room (.func params results typeParams) →
    Field.OwnNames params

theorem TsDecl.ofTypeSpec?_ungroup {spec : TypeSpec} (own : (Decl.typeSpec spec).ParamsOwn ctx.room) :
    ofTypeSpec? ctx { spec with
      type := spec.type.ungroup
      typeParams := ungroupedFields spec.typeParams } = ofTypeSpec? ctx spec := by
  obtain ⟨name, type, typeParams, doc, comment, isAlias⟩ := spec
  unfold ofTypeSpec?
  dsimp only
  rw [allNames_ungroupedFields]
  by_cases visible : Name.isVisible name = true
  · have body : type.ParamsOwn (type.bodyRoom ctx.room) := fun _ _ _ h => own _ _ _ (.body visible h)
    have bases : ∀ x ∈ Field.visibleBases type.bodyFields, x.ParamsOwn ctx.room :=
      fun x mem _ _ _ h => own _ _ _ (.embedded visible mem h)
    rw [if_pos visible, if_pos visible]
    have room : (ctx.within (Field.allNames typeParams)).room = ctx.room := rfl
    generalize ctx.within (Field.allNames typeParams) = ctx at room ⊢
    rw [← room] at body bases
    cases type with
    | struct fields =>
      have members := TsType.object.inj (ofExpr_ungroup ctx (ctx.room + 1) .plain (.struct fields) body)
      dsimp only [TypeExpr.ungroup]
      rw [basesOf_ungrouped fields bases, members]
    | interface methods =>
      have members :=
        TsType.object.inj (ofExpr_ungroup ctx (ctx.room + 1) .plain (.interface methods) body)
      dsimp only [TypeExpr.ungroup]
      rw [basesOf_ungrouped methods bases, members]
    | name | literal | counted | unknown => rfl
    | _ =>
      have alike := ofExpr_ungroup ctx ctx.room .plain _ body
      dsimp only [TypeExpr.ungroup] at alike ⊢
      rw [alike]
  · rw [if_neg visible, if_neg visible]

/-- The receiver's type is told by its own names, which are kept. -/
theorem Field.receiver_ungroup (recv : Field) :
    Field.receiver { recv with type := recv.type.ungroup } = recv.receiver := by
  unfold receiver
  dsimp only
  rw [TypeExpr.deref_ungroup, TypeExpr.unparen_ungroup]
  cases recv.type.deref.unparen with
  | generic x args =>
    dsimp only [TypeExpr.ungroup]
    rw [TypeExpr.name?_ungroup, filterMap_name?_ungroupedTypes]
  | _ => rfl

theorem FuncDecl.ofExpr_type_ungroup {decl : FuncDecl} (own : decl.type.ParamsOwn ctx.room)
    (names : List String) :
    TsType.ofExpr (ctx.within names) (ctx.within names).room .plain
        (.func (ungroupedFields decl.params) (ungroupedFields decl.results)
          (ungroupedFields decl.typeParams)) =
      .ofExpr (ctx.within names) (ctx.within names).room .plain decl.type :=
  ofExpr_ungroup (ctx.within names) ctx.room .plain decl.type own

/-- What is written for a declaration, as a tree, is the same without fields that have several
names. -/
theorem TsDecl.ofDecl_ungroup {d : Decl} (own : d.ParamsOwn ctx.room) :
    ofDecl ctx d.ungroup = ofDecl ctx d := by
  cases d with
  | typeSpec spec => exact congrArg Except.ok (ofTypeSpec?_ungroup own)
  | func decl =>
    cases receives : decl.recv with
    | none =>
      simp only [Decl.ungroup, ofDecl, receives, Option.map_none]
      unfold ofFunction?
      rw [allNames_ungroupedFields]
      by_cases visible : Name.isVisible decl.name = true
      · have type : decl.type.ParamsOwn ctx.room :=
          fun _ _ _ h => own _ _ _ (.function receives visible h)
        dsimp only [FuncDecl.type]
        rw [if_pos visible, if_pos visible, FuncDecl.ofExpr_type_ungroup type]
        rfl
      · rw [if_neg visible, if_neg visible]
    | some recv =>
      simp only [Decl.ungroup, ofDecl, receives, Option.map_some]
      unfold ofMethod?
      rw [allNames_ungroupedFields, Field.receiver_ungroup]
      dsimp only [FuncDecl.type]
      split
      · next visible =>
        obtain ⟨title, titled⟩ := Bool.and_eq_true_iff.1 visible
        have type : decl.type.ParamsOwn ctx.room :=
          fun _ _ _ h => own _ _ _ (.method receives title titled h)
        rw [FuncDecl.ofExpr_type_ungroup type]
        rfl
      · rfl
  | unknown => rfl

end declarations

/-! ## What has been parsed -/

theorem mem_listsInTypes {list : List Field} {xs : List TypeExpr} :
    list ∈ listsInTypes xs ↔ ∃ x ∈ xs, list ∈ x.signatureLists := by
  induction xs with
  | nil => simp [listsInTypes]
  | cons x xs ih => simp only [listsInTypes, List.mem_append, ih, List.mem_cons, exists_eq_or_imp]

theorem mem_listsInFields {list fields : List Field} :
    list ∈ listsInFields fields ↔ ∃ f ∈ fields, list ∈ f.type.signatureLists := by
  induction fields with
  | nil => simp [listsInFields]
  | cons f fields ih =>
    obtain ⟨names, type, doc, comment, tag⟩ := f
    simp only [listsInFields, List.mem_append, ih, List.mem_cons, exists_eq_or_imp]

theorem TypeExpr.mem_signatureLists_of_deref {list : List Field} {x : TypeExpr}
    (mem : list ∈ x.deref.signatureLists) : list ∈ x.signatureLists := by
  cases x <;> exact mem

/-- A parameter list that is rendered is one of the lists of the type. -/
theorem TypeExpr.Shown.mem_signatureLists {room : Nat} {x : TypeExpr}
    {params results typeParams : List Field} (shown : x.Shown room (.func params results typeParams)) :
    params ∈ x.signatureLists := by
  generalize func : TypeExpr.func params results typeParams = y at shown
  induction shown with
  | self => exact func ▸ List.mem_cons_self
  | pointer _ ih | variadic _ _ ih | paren _ ih | tilde _ ih => exact ih func
  | @array _ _ _ length _ ih =>
    cases length with
    | none => exact ih func
    | some length => exact List.mem_append_left _ (ih func)
  | structMember mem _ _ _ ih =>
    exact mem_listsInFields.2 ⟨_, mem, mem_signatureLists_of_deref (ih func)⟩
  | method mem _ _ _ ih => exact mem_listsInFields.2 ⟨_, mem, ih func⟩
  | left _ ih | base _ ih => exact List.mem_append_left _ (ih func)
  | right _ ih => exact List.mem_append_right _ (ih func)
  | param mem _ ih =>
    have inside := mem_listsInFields.2 ⟨_, mem, mem_signatureLists_of_deref (ih func)⟩
    simp [signatureLists, inside]
  | result mem _ ih =>
    obtain ⟨f, among, rfl⟩ := exists_of_mem_returned mem
    have inside := mem_listsInFields.2 ⟨f, among, ih func⟩
    simp [signatureLists, inside]
  | arg mem _ ih => exact List.mem_append_right _ (mem_listsInTypes.2 ⟨_, mem, ih func⟩)

/-- A parameter list that is rendered is one of the lists of the declaration. -/
theorem Decl.Shown.mem_signatureLists {room : Nat} {d : Decl} {params results typeParams : List Field}
    (shown : d.Shown room (.func params results typeParams)) : params ∈ d.signatureLists := by
  -- the type of a function has the constraints of its type parameters in it, of which nothing is rendered
  have ofType : ∀ {decl : FuncDecl}, decl.type.Shown room (.func params results typeParams) →
      params ∈ (Decl.func decl).signatureLists := by
    intro decl shown
    cases shown with
    | self => exact List.mem_cons_self
    | param mem shown =>
      have inside := mem_listsInFields.2
        ⟨_, mem, TypeExpr.mem_signatureLists_of_deref shown.mem_signatureLists⟩
      simp [signatureLists, TypeExpr.signatureLists, inside]
    | result mem shown =>
      obtain ⟨f, among, rfl⟩ := TypeExpr.exists_of_mem_returned mem
      have inside := mem_listsInFields.2 ⟨f, among, shown.mem_signatureLists⟩
      simp [signatureLists, TypeExpr.signatureLists, inside]
  cases shown with
  | body _ shown => exact shown.mem_signatureLists
  | @embedded spec _ x _ mem shown =>
    obtain ⟨f, among, rfl⟩ := List.mem_map.1 mem
    have inside := mem_listsInFields.2 ⟨f, (List.mem_filter.1 among).1, shown.mem_signatureLists⟩
    unfold signatureLists
    dsimp only
    cases body : spec.type with
    | struct fields | interface fields =>
      rw [body] at inside
      exact inside
    | _ =>
      rw [body] at inside
      cases inside
  | function _ _ shown => exact ofType shown
  | method _ _ _ shown => exact ofType shown

/-- Grouping is a shorter way to write. If no parameter that is rendered has a reserved word for its
name, a declaration that has been parsed is rendered, with its names one by one, as it stands: its text is
the same, and so are the unresolved names and the warnings. -/
theorem File.decl_ungroup {source : String} {file : File} (parsed : File.parse source = .ok file)
    (s : Session) {d : Decl} (mem : d ∈ file.decls)
    (free : ∀ params results typeParams,
      d.Shown s.context.room (.func params results typeParams) →
        ∀ name ∈ Field.allNames params, Name.isReserved name = false) :
    ∃ rendered, s.decl d = .ok rendered ∧ s.decl d.ungroup = .ok rendered := by
  have words : d.WordsIn (· ≠ "") := by
    refine File.wordsIn_of_parse parsed ?_ (by decide) d mem
    rintro _ ⟨c, cs, chars, -, -⟩ rfl
    cases chars
  have own : d.ParamsOwn s.context.room := by
    intro params results typeParams shown
    refine ⟨File.uniform_of_parse parsed d mem params shown.mem_signatureLists, fun name among => ?_⟩
    obtain ⟨f, field, here⟩ := List.mem_flatMap.1 among
    exact ⟨(fieldsIn_iff.1 (shown.wordsIn words).1 f field).1 name here,
      free params results typeParams shown name among⟩
  have known : ∃ t, TsDecl.ofDecl s.context d = .ok t := by
    cases d with
    | unknown => cases words
    | _ => exact ⟨_, rfl⟩
  obtain ⟨t, made⟩ := known
  unfold Session.decl
  rw [TsDecl.ofDecl_ungroup own, made]
  cases t <;> exact ⟨_, rfl, rfl⟩

/-- Members that share a type, in which parameters share a type, and results before an error. -/
theorem File.decl_ungroup_nested :
    let source := "type T struct \x7b F, G func(x, y int) (m, n string, err error) \x7d"
    let s := Session.ofConfig {}
    ∃ file d, File.parse source = .ok file ∧ d ∈ file.decls ∧
      (∀ params results typeParams,
        d.Shown s.context.room (.func params results typeParams) →
          ∀ name ∈ Field.allNames params, Name.isReserved name = false) ∧
      ∃ rendered, s.decl d = .ok rendered ∧ s.decl d.ungroup = .ok rendered := by
  intro source s
  have names : (File.parse source).toOption.map (fun file => file.decls.map fun d =>
      d.signatureLists.map Field.allNames) = some [[["x", "y"], ["m", "n", "err"]]] := by
    decide +kernel
  obtain ⟨file, parsed, names⟩ := exists_of_toOption_map names
  obtain ⟨d, decls, names⟩ := List.map_eq_singleton_iff.1 names
  have mem : d ∈ file.decls := decls ▸ List.mem_singleton_self d
  have free : ∀ params results typeParams,
      d.Shown s.context.room (.func params results typeParams) →
        ∀ name ∈ Field.allNames params, Name.isReserved name = false := by
    intro params results typeParams shown name among
    have list : Field.allNames params ∈ [["x", "y"], ["m", "n", "err"]] :=
      names ▸ List.mem_map_of_mem shown.mem_signatureLists
    have words : ∀ list ∈ [["x", "y"], ["m", "n", "err"]], ∀ name ∈ list,
        Name.isReserved name = false := by
      decide
    exact words _ list name among
  exact ⟨file, d, parsed, mem, free, File.decl_ungroup parsed s mem free⟩

end Typings
