import Mathlib.Data.List.Nodup
import Typings.TsType.OfExpr

/-!
# Names of parameters

A parameter is written under its own name, unless that could not name a variable: then its name is made
of its place. So none of the names is reserved. They are pairwise distinct exactly if the made names are,
and none of them is the own name of another parameter (`paramNames_nodup_iff`). Two made names may be
equal, as the two numbers of a place stand side by side in them; they are not if one of the numbers has a
single digit everywhere.
-/

namespace Typings

/-! ## Numbers as texts -/

theorem toString_injective {m n : Nat} (h : toString m = toString n) : m = n := by
  have digits := congrArg (fun text : String => Nat.ofDigitChars 10 text.toList 0) h
  simpa [Nat.toString_eq_ofList_toDigits] using digits

theorem length_toString {n : Nat} (lt : n < 10) : (toString n).toList.length = 1 := by
  have single : ∀ n < 10, (toString n).toList.length = 1 := by decide +kernel
  exact single n lt

namespace TsParam

/-! ## Names made of places -/

/-- The name made for the parameter at a place: of its field, and of its name in that. -/
def placeName (place : Nat × Nat) : String := "_arg" ++ toString place.1 ++ toString place.2

/-- Places whose first numbers, or whose second numbers, have as many digits are read off the names made
of them. -/
theorem placeName_inj {p q : Nat × Nat}
    (digits : (toString p.1).toList.length = (toString q.1).toList.length ∨
      (toString p.2).toList.length = (toString q.2).toList.length)
    (h : placeName p = placeName q) : p = q := by
  have same := congrArg String.toList h
  simp only [placeName, String.toList_append, List.append_assoc, List.append_cancel_left_eq] at same
  obtain ⟨first, second⟩ := digits.elim (List.append_inj same) (List.append_inj' same)
  exact Prod.ext (toString_injective (String.toList_inj.1 first))
    (toString_injective (String.toList_inj.1 second))

/-- No reserved word begins as the names that are made. -/
theorem isReserved_arg (text : String) : Name.isReserved ("_arg" ++ text) = false := by
  have begins : ∀ word ∈ Name.reservedWords, word.toList.head? ≠ some '_' := by decide +kernel
  cases reserved : Name.isReserved ("_arg" ++ text) with
  | false => rfl
  | true =>
    rw [Name.isReserved] at reserved
    have mem : "_arg" ++ text ∈ Name.reservedWords := List.contains_iff_mem.1 reserved
    refine absurd ?_ (begins _ mem)
    rw [String.toList_append]
    rfl

/-- The places of the names that could not name a variable, in fields from the given place on. -/
def reservedPlaces (i : Nat) : List Field → List (Nat × Nat)
  | [] => []
  | f :: fs =>
    ((f.names.zipIdx.filter fun p => Name.isReserved p.1).map fun p => (i, p.2)) ++
      reservedPlaces (i + 1) fs

variable {i : Nat} {fields : List Field} {p : Nat × Nat}

/-- A place is that of a field, and of a name in the field. -/
theorem exists_of_mem_reservedPlaces (mem : p ∈ reservedPlaces i fields) :
    i ≤ p.1 ∧ p.1 < i + fields.length ∧ ∃ f ∈ fields, p.2 < f.names.length := by
  induction fields generalizing i with
  | nil => cases mem
  | cons f fs ih =>
    rw [List.length_cons]
    rcases List.mem_append.1 mem with here | later
    · obtain ⟨⟨name, j⟩, named, rfl⟩ := List.mem_map.1 here
      have lt := List.snd_lt_of_mem_zipIdx (List.mem_filter.1 named).1
      exact ⟨Nat.le_refl i, by omega, f, List.mem_cons_self, by omega⟩
    · obtain ⟨le, lt, g, among, inside⟩ := ih later
      exact ⟨by omega, by omega, g, List.mem_cons_of_mem _ among, inside⟩

theorem nodup_reservedPlaces (i : Nat) (fields : List Field) : (reservedPlaces i fields).Nodup := by
  induction fields generalizing i with
  | nil => exact .nil
  | cons f fs ih =>
    refine List.nodup_append.2 ⟨?_, ih (i + 1), ?_⟩
    · have numbers : ((f.names.zipIdx.filter fun p => Name.isReserved p.1).map Prod.snd).Nodup := by
        refine List.Nodup.sublist (List.filter_sublist.map Prod.snd) ?_
        rw [List.zipIdx_map_snd]
        exact List.nodup_range'
      refine List.Nodup.of_map Prod.snd ?_
      rw [List.map_map]
      exact numbers
    · intro p here q later same
      obtain ⟨⟨name, j⟩, _, rfl⟩ := List.mem_map.1 here
      have := (exists_of_mem_reservedPlaces later).1
      rw [← same] at this
      exact absurd this (Nat.not_succ_le_self i)

/-- The names that are made are distinct if all groups have at most ten names, or if there are at most
ten groups. -/
theorem nodup_placeNames (few : (∀ f ∈ fields, f.names.length ≤ 10) ∨ fields.length ≤ 10) :
    ((reservedPlaces 0 fields).map placeName).Nodup := by
  refine List.Nodup.map_on (fun p memP q memQ same => placeName_inj ?_ same) (nodup_reservedPlaces 0 fields)
  obtain ⟨_, groupP, f, memF, insideP⟩ := exists_of_mem_reservedPlaces memP
  obtain ⟨_, groupQ, g, memG, insideQ⟩ := exists_of_mem_reservedPlaces memQ
  rcases few with short | short
  · have := short f memF
    have := short g memG
    exact .inr ((length_toString (by omega)).trans (length_toString (by omega)).symm)
  · exact .inl ((length_toString (by omega)).trans (length_toString (by omega)).symm)

/-! ## Names that are written -/

/-- The names of a group, in another order: those that are kept, and those that are made. -/
theorem perm_nameAt {names : List String} (i k : Nat) (nonempty : "" ∉ names) :
    ((names.zipIdx k).map fun p => nameAt i p.2 p.1).Perm
      (names.filter (fun name => !Name.isReserved name) ++
        (((names.zipIdx k).filter fun p => Name.isReserved p.1).map fun p => (i, p.2)).map
          placeName) := by
  induction names generalizing k with
  | nil => exact .nil
  | cons name names ih =>
    have others := ih (k + 1) fun mem => nonempty (List.mem_cons_of_mem _ mem)
    have some : name ≠ "" := fun none => nonempty (none ▸ List.mem_cons_self)
    rw [List.zipIdx_cons]
    cases reserved : Name.isReserved name with
    | true =>
      have made : nameAt i k name = placeName (i, k) := if_pos (by simp [reserved])
      simp only [List.map_cons, List.filter_cons, reserved, made, Bool.not_true, Bool.false_eq_true,
        if_true, if_false]
      exact (others.cons _).trans List.perm_middle.symm
    | false =>
      have kept : nameAt i k name = name := if_neg (by simp [reserved, some])
      simp only [List.map_cons, List.filter_cons, reserved, kept, Bool.not_false, Bool.false_eq_true,
        if_true, if_false]
      exact others.cons _

theorem paramNames_cons (ctx : Context) (room i : Nat) (f : Field) (fs : List Field) :
    (paramsFrom ctx room i (f :: fs)).map TsParam.name =
      namesAt i f.names ++ (paramsFrom ctx room (i + 1) fs).map TsParam.name := by
  rw [paramsFrom_cons, List.map_append, ofField, List.map_map]
  exact congrArg (· ++ _) (List.map_id' _)

/-- The names of the parameters of named fields, in another order. -/
theorem perm_paramNames (ctx : Context) (room i : Nat) (named : ∀ f ∈ fields, f.names ≠ [])
    (nonempty : "" ∉ Field.allNames fields) :
    ((paramsFrom ctx room i fields).map TsParam.name).Perm
      ((Field.allNames fields).filter (fun name => !Name.isReserved name) ++
        (reservedPlaces i fields).map placeName) := by
  induction fields generalizing i with
  | nil => exact .nil
  | cons f fs ih =>
    obtain ⟨some, named⟩ := List.forall_mem_cons.1 named
    have all : Field.allNames (f :: fs) = f.names ++ Field.allNames fs := List.flatMap_cons
    rw [all] at nonempty
    obtain ⟨here, behind⟩ := not_or.1 (mt List.mem_append.2 nonempty)
    have group : namesAt i f.names = f.names.zipIdx.map fun p => nameAt i p.2 p.1 := by
      rw [namesAt, if_neg (mt List.isEmpty_iff.1 some), List.mapIdx_eq_zipIdx_map]
    rw [paramNames_cons, group, all, List.filter_append, reservedPlaces, List.map_append]
    refine ((perm_nameAt i 0 here).append (ih (i + 1) named behind)).trans ?_
    rw [List.append_assoc, List.append_assoc]
    exact (List.perm_append_comm_assoc ..).append_left _

/-- The names of the parameters of unnamed fields. -/
theorem paramNames_unnamed (ctx : Context) (room i : Nat) (unnamed : ∀ f ∈ fields, f.names = []) :
    (paramsFrom ctx room i fields).map TsParam.name =
      (List.range' i fields.length).map fun i => "_arg" ++ toString i := by
  induction fields generalizing i with
  | nil => rfl
  | cons f fs ih =>
    obtain ⟨here, behind⟩ := List.forall_mem_cons.1 unnamed
    rw [paramNames_cons, ih (i + 1) behind, here]
    rfl

theorem nodup_paramNames_unnamed (ctx : Context) (room i : Nat)
    (unnamed : ∀ f ∈ fields, f.names = []) :
    ((paramsFrom ctx room i fields).map TsParam.name).Nodup := by
  rw [paramNames_unnamed ctx room i unnamed]
  refine List.Nodup.map_on (fun i _ j _ same => ?_) List.nodup_range'
  have digits := congrArg String.toList same
  rw [String.toList_append, String.toList_append, List.append_cancel_left_eq] at digits
  exact toString_injective (String.toList_inj.1 digits)

theorem reservedPlaces_unnamed (i : Nat) (unnamed : ∀ f ∈ fields, f.names = []) :
    reservedPlaces i fields = [] := by
  refine List.eq_nil_iff_forall_not_mem.2 fun p mem => ?_
  obtain ⟨_, _, f, among, inside⟩ := exists_of_mem_reservedPlaces mem
  rw [unnamed f among] at inside
  exact absurd inside (Nat.not_lt_zero _)

/-- A name that is kept is not reserved, and neither is one that is made. -/
theorem isReserved_of_mem_paramNames {ctx : Context} {room i : Nat} {name : String}
    (uniform : (∀ f ∈ fields, f.names = []) ∨ ∀ f ∈ fields, f.names ≠ [])
    (nonempty : "" ∉ Field.allNames fields)
    (mem : name ∈ (paramsFrom ctx room i fields).map TsParam.name) : Name.isReserved name = false := by
  rcases uniform with unnamed | named
  · rw [paramNames_unnamed ctx room i unnamed] at mem
    obtain ⟨j, _, rfl⟩ := List.mem_map.1 mem
    exact isReserved_arg _
  · rcases List.mem_append.1 ((perm_paramNames ctx room i named nonempty).subset mem) with kept | made
    · simpa using (List.mem_filter.1 kept).2
    · obtain ⟨p, _, rfl⟩ := List.mem_map.1 made
      rw [placeName, String.append_assoc]
      exact isReserved_arg _

/-- The names of the parameters of named fields are distinct if the made ones are, and apart from those
that are kept. -/
theorem nodup_paramNames_named (ctx : Context) (room i : Nat) (named : ∀ f ∈ fields, f.names ≠ [])
    (distinct : (Field.allNames fields).Nodup) (nonempty : "" ∉ Field.allNames fields) :
    ((paramsFrom ctx room i fields).map TsParam.name).Nodup ↔
      ((reservedPlaces i fields).map placeName).Nodup ∧
        ∀ name ∈ Field.allNames fields, Name.isReserved name = false →
          name ∉ (reservedPlaces i fields).map placeName := by
  rw [(perm_paramNames ctx room i named nonempty).nodup_iff, List.nodup_append]
  constructor
  · rintro ⟨_, distinct, apart⟩
    refine ⟨distinct, fun name mem kept placed => ?_⟩
    exact apart name (List.mem_filter.2 ⟨mem, by rw [kept]; rfl⟩) name placed rfl
  · rintro ⟨distinct', apart⟩
    refine ⟨distinct.filter _, distinct', fun name kept other placed same => ?_⟩
    obtain ⟨mem, free⟩ := List.mem_filter.1 kept
    exact apart name mem (by simpa using free) (same ▸ placed)

end TsParam

/-- The parameters of a list that names all of its parameters or none, each name not empty and given
once, are written under names that are not reserved. These are distinct exactly if the names that are
made of places are, and are none of the names that are kept; and the made names are distinct if all
groups have at most ten names, or if there are at most ten groups. -/
theorem TsParam.paramNames_nodup_iff (ctx : Context) (room : Nat) {fields : List Field}
    (uniform : (∀ f ∈ fields, f.names = []) ∨ ∀ f ∈ fields, f.names ≠ [])
    (distinct : (Field.allNames fields).Nodup) (nonempty : "" ∉ Field.allNames fields) :
    let written := (paramsFrom ctx room 0 fields).map TsParam.name
    let made := (reservedPlaces 0 fields).map placeName
    (∀ name ∈ written, Name.isReserved name = false) ∧
      (written.Nodup ↔ made.Nodup ∧
        ∀ name ∈ Field.allNames fields, Name.isReserved name = false → name ∉ made) ∧
      ((∀ f ∈ fields, f.names.length ≤ 10) ∨ fields.length ≤ 10 → made.Nodup) := by
  intro written made
  refine ⟨fun name mem => isReserved_of_mem_paramNames uniform nonempty mem, ?_, nodup_placeNames⟩
  rcases uniform with unnamed | named
  · have none : Field.allNames fields = [] := List.flatMap_eq_nil_iff.2 unnamed
    have bare : made = [] := congrArg (List.map placeName) (reservedPlaces_unnamed 0 unnamed)
    rw [bare, none]
    exact iff_of_true (nodup_paramNames_unnamed ctx room 0 unnamed) ⟨.nil, List.forall_mem_nil _⟩
  · exact nodup_paramNames_named ctx room 0 named distinct nonempty

/-- Two names that could not name a variable, in two groups. -/
theorem TsParam.paramNames_nodup_iff_reserved :
    let fields : List Field :=
      [{ names := ["a", "class"], type := .name "int" }, { names := ["new"], type := .name "string" }]
    let written := (paramsFrom { config := {} } 1 0 fields).map TsParam.name
    let made := (reservedPlaces 0 fields).map placeName
    written = ["a", "_arg01", "_arg10"] ∧ made = ["_arg01", "_arg10"] ∧
      (∀ name ∈ written, Name.isReserved name = false) ∧
      (written.Nodup ↔ made.Nodup ∧
        ∀ name ∈ Field.allNames fields, Name.isReserved name = false → name ∉ made) ∧
      ((∀ f ∈ fields, f.names.length ≤ 10) ∨ fields.length ≤ 10 → made.Nodup) := by
  intro fields written made
  have named : ∀ f ∈ fields, f.names ≠ [] := by
    intro f mem
    rcases List.mem_cons.1 mem with rfl | mem
    · exact List.cons_ne_nil _ _
    · rw [List.mem_singleton.1 mem]
      exact List.cons_ne_nil _ _
  exact ⟨by decide +kernel, by decide +kernel,
    paramNames_nodup_iff _ _ (.inr named) (by decide +kernel) (by decide +kernel)⟩

/-- A made name may be the own name of another parameter; and two made names may be equal, those of the
twelfth name of the second group and of the second name of the twelfth group. -/
theorem TsParam.paramNames_not_nodup :
    (let fields : List Field :=
      [{ names := ["_arg10"], type := .name "int" }, { names := ["class"], type := .name "string" }]
    (∀ f ∈ fields, f.names ≠ []) ∧ (Field.allNames fields).Nodup ∧
      "" ∉ Field.allNames fields ∧
      (paramsFrom { config := {} } 1 0 fields).map TsParam.name = ["_arg10", "_arg10"]) ∧
    let own : Nat × Nat → String := fun place =>
      if place = (1, 11) then "class" else if place = (11, 1) then "new"
      else "x" ++ toString place.1 ++ "_" ++ toString place.2
    let fields : List Field := (List.range 12).map fun i =>
      { names := (List.range (if i = 1 then 12 else 2)).map fun j => own (i, j),
        type := .name "int" }
    (∀ f ∈ fields, f.names ≠ []) ∧ (Field.allNames fields).Nodup ∧
      "" ∉ Field.allNames fields ∧
      ¬((paramsFrom { config := {} } 1 0 fields).map TsParam.name).Nodup := by
  refine ⟨by decide +kernel, ?_⟩
  decide +kernel

end Typings
