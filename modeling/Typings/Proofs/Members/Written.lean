import Typings.TsType.Text

/-!
# The members that are written

A rendered type holds bodies at any depth. Here their members are gathered, each with the level of
indentation that it is written at, in the order in which they are written; and each of them has a
line of its own in the text (`TsDecl.contains_line`). A call signature has no key and does not count
as a member.
-/

namespace Typings

/-- The text of a member from its key to its type. -/
def TsMember.text (indent : String) (depth : Int) (m : TsMember) : String :=
  m.key ++ (if m.optional then "?" else "") ++ (if m.colon then ": " else "")
    ++ m.type.text indent depth

/-- A member and the level of indentation that it is written at. -/
structure WrittenMember where
  depth : Int
  member : TsMember

namespace WrittenMember

/-- The text of the member where it is written. -/
def text (indent : String) (w : WrittenMember) : String := w.member.text indent w.depth

/-- The line of the member. -/
def line (indent : String) (w : WrittenMember) : String :=
  indentText indent w.depth ++ w.text indent ++ lineEndText w.member.note

end WrittenMember

mutual

/-- The members in the bodies of a type whose text begins on a line of the given level. -/
def TsType.written (depth : Int) : TsType → List WrittenMember
  | .verbatim _ | .unresolved _ | .cut _ | .dropped _ => []
  | .array elt | .bytes elt | .list elt => elt.written depth
  | .paren x | .nullable x => x.written depth
  | .binary x _ y => x.written depth ++ y.written depth
  | .generic base args => base.written depth ++ writtenInTypes depth args
  | .object members => writtenInMembers (depth + 1) members
  | .arrow params result | .signature params result =>
    writtenInParams depth params ++ result.written depth
  | .tuple items => writtenInTypes depth items

/-- The members in the bodies of several types. -/
def writtenInTypes (depth : Int) : List TsType → List WrittenMember
  | [] => []
  | x :: xs => x.written depth ++ writtenInTypes depth xs

/-- The members of a body, each followed by those inside its type. -/
def writtenInMembers (depth : Int) : List TsMember → List WrittenMember
  | [] => []
  | ⟨doc, key, optional, colon, type, note⟩ :: members =>
    (if key = "" then [] else [⟨depth, ⟨doc, key, optional, colon, type, note⟩⟩])
      ++ type.written depth ++ writtenInMembers depth members

/-- The members in the bodies of the types of parameters. -/
def writtenInParams (depth : Int) : List TsParam → List WrittenMember
  | [] => []
  | ⟨_, _, type, _⟩ :: params => type.written depth ++ writtenInParams depth params

end

/-- The members of a declaration and those in the bodies inside it. -/
def TsDecl.written : TsDecl → List WrittenMember
  | .interface _ _ _ bases members => writtenInTypes 0 bases ++ writtenInMembers 1 members
  | .synonym _ _ _ type _ => type.written 0

theorem writtenInMembers_cons (depth : Int) (m : TsMember) (ms : List TsMember) :
    writtenInMembers depth (m :: ms) =
      (if m.key = "" then [] else [⟨depth, m⟩]) ++ m.type.written depth
        ++ writtenInMembers depth ms := by
  obtain ⟨doc, key, optional, colon, type, note⟩ := m
  rfl

theorem writtenInTypes_append (depth : Int) (xs ys : List TsType) :
    writtenInTypes depth (xs ++ ys) = writtenInTypes depth xs ++ writtenInTypes depth ys := by
  induction xs with
  | nil => rfl
  | cons x xs ih =>
    rw [List.cons_append, writtenInTypes, writtenInTypes, ih, List.append_assoc]

theorem writtenInMembers_append (depth : Int) (ms ns : List TsMember) :
    writtenInMembers depth (ms ++ ns) = writtenInMembers depth ms ++ writtenInMembers depth ns := by
  induction ms with
  | nil => rfl
  | cons m ms ih =>
    rw [List.cons_append, writtenInMembers_cons, writtenInMembers_cons, ih]
    simp only [List.append_assoc]

theorem writtenInParams_append (depth : Int) (ps qs : List TsParam) :
    writtenInParams depth (ps ++ qs) = writtenInParams depth ps ++ writtenInParams depth qs := by
  induction ps with
  | nil => rfl
  | cons p ps ih =>
    obtain ⟨spread, name, type, note⟩ := p
    rw [List.cons_append, writtenInParams, writtenInParams, ih, List.append_assoc]

/-! ## Texts within texts -/

/-- A text with another one in it. -/
def Contains (whole part : String) : Prop := ∃ before after, whole = before ++ part ++ after

namespace Contains

variable {whole part : String}

theorem refl (whole : String) : Contains whole whole := ⟨"", "", by simp⟩

theorem append_left (before : String) (h : Contains whole part) : Contains (before ++ whole) part := by
  obtain ⟨front, back, rfl⟩ := h
  exact ⟨before ++ front, back, by simp only [String.append_assoc]⟩

theorem append_right (after : String) (h : Contains whole part) : Contains (whole ++ after) part := by
  obtain ⟨front, back, rfl⟩ := h
  exact ⟨front, back ++ after, by simp only [String.append_assoc]⟩

/-- Joined texts hold what each of them holds. -/
theorem intercalate {separator text : String} {texts : List String} (mem : text ∈ texts)
    (h : Contains text part) : Contains (separator.intercalate texts) part := by
  induction texts with
  | nil => cases mem
  | cons first texts ih =>
    cases texts with
    | nil =>
      rw [List.mem_singleton.1 mem] at h
      rw [String.intercalate_singleton]
      exact h
    | cons second texts =>
      rw [String.intercalate_cons_cons]
      rcases List.mem_cons.1 mem with rfl | behind
      · exact (h.append_right _).append_right _
      · exact (ih behind).append_left _

end Contains

/-! ## The line of a member -/

theorem textOfMembers_cons (indent : String) (depth : Int) (m : TsMember) (ms : List TsMember) :
    textOfMembers indent depth (m :: ms) =
      docBlock (indentText indent depth) m.doc ++ (WrittenMember.mk depth m).line indent
        ++ textOfMembers indent depth ms := by
  obtain ⟨doc, key, optional, colon, type, note⟩ := m
  simp only [textOfMembers, WrittenMember.line, WrittenMember.text, TsMember.text,
    String.append_assoc]

mutual

/-- The line of each member in a type is in its text. -/
theorem TsType.contains_line (indent : String) (depth : Int) :
    ∀ (t : TsType), ∀ w ∈ t.written depth, Contains (t.text indent depth) (w.line indent)
  | .verbatim _, _, mem | .unresolved _, _, mem | .cut _, _, mem | .dropped _, _, mem => nomatch mem
  | .array elt, w, mem | .bytes elt, w, mem | .paren elt, w, mem =>
    ((elt.contains_line indent depth w mem).append_left _).append_right _
  | .list x, w, mem | .nullable x, w, mem => (x.contains_line indent depth w mem).append_right _
  | .binary x op y, w, mem => by
    rcases List.mem_append.1 mem with left | right
    · have h := x.contains_line indent depth w left
      exact ((h.append_right _).append_right _).append_right _ |>.append_right _
    · exact (y.contains_line indent depth w right).append_left _
  | .generic base args, w, mem => by
    rcases List.mem_append.1 mem with left | right
    · have h := base.contains_line indent depth w left
      exact ((h.append_right _).append_right _).append_right _
    · obtain ⟨text, among, h⟩ := contains_line_of_types indent depth args w right
      exact ((h.intercalate among).append_left _).append_right _
  | .object members, w, mem => by
    have h := contains_line_of_members indent (depth + 1) members w mem
    exact ((h.append_left _).append_right _).append_right _
  | .arrow params result, w, mem | .signature params result, w, mem => by
    rcases List.mem_append.1 mem with left | right
    · obtain ⟨text, among, h⟩ := contains_line_of_params indent depth params w left
      exact (((h.intercalate among).append_left _).append_right _).append_right _
    · exact (result.contains_line indent depth w right).append_left _
  | .tuple items, w, mem => by
    obtain ⟨text, among, h⟩ := contains_line_of_types indent depth items w mem
    exact ((h.intercalate among).append_left _).append_right _

theorem contains_line_of_types (indent : String) (depth : Int) :
    ∀ (xs : List TsType), ∀ w ∈ writtenInTypes depth xs,
      ∃ text ∈ textsOfTypes indent depth xs, Contains text (w.line indent)
  | [], _, mem => nomatch mem
  | x :: xs, w, mem => by
    rcases List.mem_append.1 mem with here | behind
    · exact ⟨_, List.mem_cons_self .., x.contains_line indent depth w here⟩
    · obtain ⟨text, among, h⟩ := contains_line_of_types indent depth xs w behind
      exact ⟨text, List.mem_cons_of_mem _ among, h⟩

theorem contains_line_of_members (indent : String) (depth : Int) :
    ∀ (ms : List TsMember), ∀ w ∈ writtenInMembers depth ms,
      Contains (textOfMembers indent depth ms) (w.line indent)
  | [], _, mem => nomatch mem
  | ⟨doc, key, optional, colon, type, note⟩ :: ms, w, mem => by
    rw [textOfMembers_cons]
    rcases List.mem_append.1 mem with here | behind
    · rcases List.mem_append.1 here with own | inside
      · split at own
        · cases own
        · rw [List.mem_singleton.1 own]
          exact ((Contains.refl _).append_left _).append_right _
      · have h := type.contains_line indent depth w inside
        have line : Contains ((WrittenMember.mk depth ⟨doc, key, optional, colon, type, note⟩).line
            indent) (w.line indent) := (h.append_left _ |>.append_left _).append_right _
        exact (line.append_left _).append_right _
    · exact (contains_line_of_members indent depth ms w behind).append_left _

theorem contains_line_of_params (indent : String) (depth : Int) :
    ∀ (ps : List TsParam), ∀ w ∈ writtenInParams depth ps,
      ∃ text ∈ textsOfParams indent depth ps, Contains text (w.line indent)
  | [], _, mem => nomatch mem
  | ⟨spread, name, type, note⟩ :: ps, w, mem => by
    rcases List.mem_append.1 mem with here | behind
    · have h := type.contains_line indent depth w here
      exact ⟨_, List.mem_cons_self .., (h.append_left _).append_right _⟩
    · obtain ⟨text, among, h⟩ := contains_line_of_params indent depth ps w behind
      exact ⟨text, List.mem_cons_of_mem _ among, h⟩

end

/-- The line of each member of a declaration is in its text. -/
theorem TsDecl.contains_line (indent startModifier : String) (t : TsDecl) :
    ∀ w ∈ t.written, Contains (t.text indent startModifier) (w.line indent) := by
  intro w mem
  cases t with
  | interface doc name typeParams bases members =>
    rcases List.mem_append.1 mem with left | right
    · obtain ⟨text, among, h⟩ := contains_line_of_types indent 0 bases w left
      have some : bases.isEmpty = false := by
        cases bases with
        | nil => cases left
        | cons => rfl
      have inExtends : Contains (extendsText indent bases) (w.line indent) := by
        rw [extendsText, some]
        exact (h.intercalate among).append_left _
      exact ((inExtends.append_left _).append_right _ |>.append_right _).append_right _
    · have h := contains_line_of_members indent 1 members w right
      exact (h.append_left _).append_right _
  | synonym doc name typeParams type note =>
    exact ((type.contains_line indent 0 w mem).append_left _).append_right _

end Typings
