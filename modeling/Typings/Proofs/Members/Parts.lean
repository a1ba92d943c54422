import Typings.Proofs.Members.Written
import Typings.TsType.OfExpr

/-!
# The parts of a rendered type, one by one

The texts of several types, members or parameters are those of each of them, and so are their issues.
-/

namespace Typings

/-- The text of a parameter. -/
def TsParam.text (indent : String) (depth : Int) (p : TsParam) : String :=
  (if p.spread then "..." else "") ++ p.name ++ ": " ++ p.type.text indent depth ++ paramNote p.note

/-- The lines of a member: its documentation, and the line of its own. -/
def TsMember.block (indent : String) (depth : Int) (m : TsMember) : String :=
  docBlock (indentText indent depth) m.doc ++ (WrittenMember.mk depth m).line indent

theorem textsOfTypes_eq_map (indent : String) (depth : Int) (xs : List TsType) :
    textsOfTypes indent depth xs = xs.map (TsType.text indent depth) := by
  induction xs with
  | nil => rfl
  | cons x xs ih => rw [textsOfTypes, ih, List.map_cons]

theorem textsOfParams_cons (indent : String) (depth : Int) (p : TsParam) (ps : List TsParam) :
    textsOfParams indent depth (p :: ps) = p.text indent depth :: textsOfParams indent depth ps := by
  obtain ⟨spread, name, type, note⟩ := p
  rfl

theorem textsOfParams_eq_map (indent : String) (depth : Int) (ps : List TsParam) :
    textsOfParams indent depth ps = ps.map (TsParam.text indent depth) := by
  induction ps with
  | nil => rfl
  | cons p ps ih => rw [textsOfParams_cons, ih, List.map_cons]

theorem textOfMembers_eq_join (indent : String) (depth : Int) (ms : List TsMember) :
    textOfMembers indent depth ms = String.join (ms.map (TsMember.block indent depth)) := by
  induction ms with
  | nil => rfl
  | cons m ms ih => rw [textOfMembers_cons, ih, List.map_cons, String.join_cons, TsMember.block]

/-- Leaving an error out brings no result in. -/
theorem mem_of_mem_withoutError {results : List Field} {rendered : List TsType} {x : TsType}
    (mem : x ∈ withoutError results rendered) : x ∈ rendered := by
  unfold withoutError at mem
  split at mem
  · exact (List.dropLast_sublist _).subset mem
  · exact mem

theorem issuesOfTypes_eq_flatMap (xs : List TsType) :
    issuesOfTypes xs = xs.flatMap TsType.issues := by
  induction xs with
  | nil => rfl
  | cons x xs ih => rw [issuesOfTypes, ih, List.flatMap_cons]

theorem issuesOfMembers_eq_flatMap (ms : List TsMember) :
    issuesOfMembers ms = ms.flatMap fun m => m.type.issues := by
  induction ms with
  | nil => rfl
  | cons m ms ih =>
    obtain ⟨doc, key, optional, colon, type, note⟩ := m
    rw [issuesOfMembers, ih, List.flatMap_cons]

theorem issuesOfParams_eq_flatMap (ps : List TsParam) :
    issuesOfParams ps = ps.flatMap fun p => p.type.issues := by
  induction ps with
  | nil => rfl
  | cons p ps ih =>
    obtain ⟨spread, name, type, note⟩ := p
    rw [issuesOfParams, ih, List.flatMap_cons]

/-! ## Numbers -/

/-- Numbers are written in digits. -/
theorem isDigit_of_mem_toString {n : Nat} {c : Char} (mem : c ∈ (toString n).toList) :
    c.isDigit = true := by
  rw [Nat.toString_eq_repr, Nat.repr_eq_ofList_toDigits, String.toList_ofList] at mem
  exact Nat.isDigit_of_mem_toDigits (by decide) (by decide) mem

/-! ## Notes -/

/-- No part of a split text has the separator in it. -/
theorem not_mem_splitOn {separator : Char} {cs piece : List Char}
    (mem : piece ∈ Text.splitOn separator cs) : separator ∉ piece := by
  induction cs generalizing piece with
  | nil =>
    rw [List.mem_singleton.1 mem]
    exact nofun
  | cons c cs ih =>
    rw [Text.splitOn] at mem
    split at mem
    · rcases List.mem_cons.1 mem with rfl | behind
      · exact nofun
      · exact ih behind
    · next other =>
      split at mem
      · rw [List.mem_singleton.1 mem]
        exact fun here => other (List.mem_singleton.1 here).symm
      · next first rest split =>
        rw [split] at ih
        rcases List.mem_cons.1 mem with rfl | behind
        · intro here
          rcases List.mem_cons.1 here with rfl | inside
          · exact other rfl
          · exact ih (List.mem_cons_self ..) inside
        · exact ih (List.mem_cons_of_mem _ behind)

/-- A character that is in none of the texts, nor in the separator, is not in the joined text. -/
theorem not_mem_intercalate {c : Char} {separator : String} (apart : c ∉ separator.toList)
    {texts : List String} (inside : ∀ text ∈ texts, c ∉ text.toList) :
    c ∉ (separator.intercalate texts).toList := by
  refine @Text.intercalate_of (fun text => c ∉ text.toList) List.not_mem_nil ?_ _ _ apart inside
  intro a b ha hb
  rw [String.toList_append]
  exact List.not_mem_append ha hb

/-- A line of a comment group has no line end in it, whatever the comments are. -/
theorem CommentGroup.not_mem_of_mem_lines {group : CommentGroup} {line : String}
    (mem : line ∈ group.lines) : '\n' ∉ line.toList := by
  unfold lines at mem
  split at mem
  · cases mem
  · obtain ⟨piece, among, rfl⟩ := List.mem_map.1 mem
    rw [String.toList_ofList]
    exact not_mem_splitOn among

/-- A comment on one line has no line end in it. -/
theorem not_mem_noteOf (comment : Option CommentGroup) : '\n' ∉ (noteOf comment).toList := by
  cases comment with
  | none => exact nofun
  | some group => exact not_mem_intercalate (by decide) fun _ => CommentGroup.not_mem_of_mem_lines

end Typings
