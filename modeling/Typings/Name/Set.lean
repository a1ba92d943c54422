/-!
# Sets of names

A finite set of names, kept in ascending order by code points and without repetitions. A set is
determined by its members (`NameSet.ext`), so that the order in which names were put in never shows,
and its list is the one in which they are reported.
-/

namespace Typings

/-- A finite set, as its names in ascending order. -/
structure NameSet where
  toList : List String
  ascending : toList.Pairwise (· < ·)
  deriving Repr

namespace NameSet

/-! ## Ascending lists -/

/-- A name at its place in an ascending list, unless it is there. -/
def insertSorted (name : String) : List String → List String
  | [] => [name]
  | n :: ns =>
    if name < n then name :: n :: ns
    else if name = n then n :: ns
    else n :: insertSorted name ns

theorem mem_insertSorted {name m : String} {ns : List String} :
    m ∈ insertSorted name ns ↔ m = name ∨ m ∈ ns := by
  induction ns with
  | nil => simp [insertSorted]
  | cons n ns ih =>
    unfold insertSorted
    split
    · simp
    · split
      · next h => simp [h]
      · simp only [List.mem_cons, ih]
        constructor <;> rintro (h | h | h) <;> simp [h]

theorem pairwise_insertSorted {name : String} {ns : List String} (h : ns.Pairwise (· < ·)) :
    (insertSorted name ns).Pairwise (· < ·) := by
  induction ns with
  | nil => simp [insertSorted]
  | cons n ns ih =>
    obtain ⟨first, rest⟩ := List.pairwise_cons.1 h
    unfold insertSorted
    split
    · next lt =>
      refine List.pairwise_cons.2 ⟨fun m hm => ?_, h⟩
      rcases List.mem_cons.1 hm with rfl | hm
      · exact lt
      · exact String.lt_trans lt (first m hm)
    · next not_lt =>
      split
      · exact h
      · next ne =>
        refine List.pairwise_cons.2 ⟨fun m hm => ?_, ih rest⟩
        rcases mem_insertSorted.1 hm with rfl | hm
        · exact Std.lt_of_le_of_ne not_lt (Ne.symm ne)
        · exact first m hm

theorem nodup_of_pairwise {ns : List String} (h : ns.Pairwise (· < ·)) : ns.Nodup := by
  refine List.Pairwise.imp ?_ h
  intro a b lt eq
  subst eq
  exact String.lt_irrefl _ lt

/-- Ascending lists with the same members are equal. -/
theorem eq_of_pairwise {ns ms : List String} (hn : ns.Pairwise (· < ·)) (hm : ms.Pairwise (· < ·))
    (h : ∀ name, name ∈ ns ↔ name ∈ ms) : ns = ms :=
  List.Perm.eq_of_pairwise
    (fun _ _ _ _ ab ba => absurd (String.lt_trans ab ba) (String.lt_irrefl _)) hn hm
    ((List.perm_ext_iff_of_nodup (nodup_of_pairwise hn) (nodup_of_pairwise hm)).2 fun name => h name)

/-! ## Sets -/

/-- Sets are equal if their lists are. -/
instance : DecidableEq NameSet := fun s t =>
  decidable_of_iff (s.toList = t.toList) (by cases s; cases t; simp)

instance : Membership String NameSet := ⟨fun s name => name ∈ s.toList⟩

/-- The set without names. -/
def empty : NameSet := ⟨[], .nil⟩

/-- The set with one more name. -/
def insert (s : NameSet) (name : String) : NameSet :=
  ⟨insertSorted name s.toList, pairwise_insertSorted s.ascending⟩

/-- The set with the names of a list. -/
def insertAll (s : NameSet) (names : List String) : NameSet := names.foldl insert s

/-- The set of the names in a list. -/
def ofList (names : List String) : NameSet := insertAll empty names

/-- The names of both sets. -/
def union (s t : NameSet) : NameSet := s.insertAll t.toList

/-- The name belongs to the set. -/
def contains (s : NameSet) (name : String) : Bool := s.toList.contains name

/-- The set holds no name. -/
def isEmpty (s : NameSet) : Bool := s.toList.isEmpty

@[simp] theorem mem_toList {s : NameSet} {name : String} : name ∈ s.toList ↔ name ∈ s := Iff.rfl

/-- A set is determined by its members. -/
theorem ext {s t : NameSet} (h : ∀ name, name ∈ s ↔ name ∈ t) : s = t := by
  obtain ⟨ns, hn⟩ := s
  obtain ⟨ms, hm⟩ := t
  obtain rfl : ns = ms := eq_of_pairwise hn hm h
  rfl

@[simp] theorem not_mem_empty (name : String) : name ∉ empty := List.not_mem_nil

@[simp] theorem mem_insert {s : NameSet} {name m : String} : m ∈ s.insert name ↔ m = name ∨ m ∈ s :=
  mem_insertSorted

@[simp] theorem mem_insertAll {s : NameSet} {names : List String} {m : String} :
    m ∈ s.insertAll names ↔ m ∈ s ∨ m ∈ names := by
  induction names generalizing s with
  | nil => simp [insertAll]
  | cons name names ih =>
    have step : s.insertAll (name :: names) = (s.insert name).insertAll names := rfl
    rw [step, ih, mem_insert, List.mem_cons, or_assoc, or_left_comm]

@[simp] theorem mem_ofList {names : List String} {m : String} : m ∈ ofList names ↔ m ∈ names := by
  simp [ofList]

@[simp] theorem mem_union {s t : NameSet} {m : String} : m ∈ s.union t ↔ m ∈ s ∨ m ∈ t := by
  simp [union]

@[simp] theorem contains_iff {s : NameSet} {name : String} : s.contains name ↔ name ∈ s :=
  List.contains_iff_mem

end NameSet

end Typings
