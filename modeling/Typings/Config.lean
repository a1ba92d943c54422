import Typings.Name.Style

/-!
# Options of a run
-/

namespace Typings

/-- Type names of the source with the text that is written for them. A key is a plain name (`Time`),
a qualified one (`time.Time`), or stands for all names of a package (`time.*`). Of equal keys the
first counts. -/
structure Mappings where
  entries : List (String × String) := []
  deriving DecidableEq, Repr

namespace Mappings

/-- The text for a key. -/
def find? (m : Mappings) (key : String) : Option String := m.entries.lookup key

theorem mem_of_find? {m : Mappings} {key text : String} (h : m.find? key = some text) :
    (key, text) ∈ m.entries := by
  obtain ⟨before, behind, entries, -⟩ := List.lookup_eq_some_iff.1 h
  exact entries ▸ List.mem_append_right _ List.mem_cons_self

/-- The mappings with one more entry, which takes the place of any other with its key. -/
def insert (m : Mappings) (key text : String) : Mappings := ⟨(key, text) :: m.entries⟩

theorem find?_insert_self (m : Mappings) (key text : String) :
    (m.insert key text).find? key = some text :=
  List.lookup_cons_self

theorem find?_insert_of_ne {key other : String} (differ : other ≠ key) (m : Mappings) (text : String) :
    (m.insert key text).find? other = m.find? other := by
  unfold find? insert
  rw [List.lookup_cons, beq_false_of_ne differ]

/-- The text for a name of a package: that of the qualified name, else that of the whole package. -/
def findQualified? (m : Mappings) (package name : String) : Option String :=
  (m.find? (package ++ "." ++ name)).or (m.find? (package ++ ".*"))

theorem exists_of_findQualified? {m : Mappings} {package name text : String}
    (h : m.findQualified? package name = some text) : ∃ key, (key, text) ∈ m.entries := by
  rcases Option.or_eq_some_iff.1 h with exact | ⟨-, whole⟩
  · exact ⟨_, mem_of_find? exact⟩
  · exact ⟨_, mem_of_find? whole⟩

end Mappings

/-- The options of a run: the text of one level of indentation, the word before each top-level
declaration, the text above all of them, the mappings, the styles of member names, and how deep
types may be nested before `any` is written for them. -/
structure Config where
  indent : String := "  "
  startModifier : String := ""
  heading : String := ""
  mappings : Mappings := {}
  fieldNames : NameStyle := .keep
  methodNames : NameStyle := .keep
  maxDepth : Int := 64
  deriving DecidableEq, Repr

end Typings
