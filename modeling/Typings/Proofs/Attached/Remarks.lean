import Typings.Decl.Basic

/-!
# The comments that are attached to something

A remark is a comment group of a declaration, a member, a parameter or a result: the one above it or the
one behind it. The remarks of a syntax tree are those of all fields and specifications in it, in the
order in which they are written.
-/

namespace Typings

/-- A comment group, above what it is attached to or behind it. -/
inductive Remark where
  | doc (group : CommentGroup)
  | note (group : CommentGroup)
  deriving DecidableEq, Repr

namespace Remark

/-- The comments of a remark. -/
def comments : Remark → List String
  | doc group | note group => group.comments

/-- The remark that a group makes above something, if there is one. -/
def ofDoc (group : Option CommentGroup) : List Remark := group.toList.map doc

/-- The remark that a group makes behind something, if there is one. -/
def ofNote (group : Option CommentGroup) : List Remark := group.toList.map note

end Remark

mutual

/-- The remarks in a type. -/
def TypeExpr.remarks : TypeExpr → List Remark
  | .name _ | .literal _ _ | .counted _ | .unknown => []
  | .selector x _ | .pointer x | .variadic x | .paren x | .unary _ x | .channel _ x => x.remarks
  | .array elt none => elt.remarks
  | .array elt (some length) => length.remarks ++ elt.remarks
  | .map key value => key.remarks ++ value.remarks
  | .func params results typeParams =>
    remarksOfFields typeParams ++ remarksOfFields params ++ remarksOfFields results
  | .struct fields | .interface fields => remarksOfFields fields
  | .generic x args | .call x args => x.remarks ++ remarksOfTypes args
  | .binary x _ y => x.remarks ++ y.remarks
  | .composite none elts => remarksOfTypes elts
  | .composite (some type) elts => type.remarks ++ remarksOfTypes elts

/-- The remarks in types. -/
def remarksOfTypes : List TypeExpr → List Remark
  | [] => []
  | x :: xs => x.remarks ++ remarksOfTypes xs

/-- The remarks on fields and in their types. -/
def remarksOfFields : List Field → List Remark
  | [] => []
  | ⟨_, type, doc, comment, _⟩ :: fields =>
    Remark.ofDoc doc ++ type.remarks ++ Remark.ofNote comment ++ remarksOfFields fields

end

/-- The remarks on a field and in its type. -/
def Field.remarks (f : Field) : List Remark :=
  Remark.ofDoc f.doc ++ f.type.remarks ++ Remark.ofNote f.comment

/-- The remarks on a type specification and inside it. -/
def TypeSpec.remarks (spec : TypeSpec) : List Remark :=
  Remark.ofDoc spec.doc ++ remarksOfFields spec.typeParams ++ spec.type.remarks
    ++ Remark.ofNote spec.comment

/-- The remarks on a function and inside it. -/
def FuncDecl.remarks (decl : FuncDecl) : List Remark :=
  Remark.ofDoc decl.doc ++ remarksOfFields decl.recv.toList ++ decl.type.remarks

/-- The remarks on a declaration and inside it. -/
def Decl.remarks : Decl → List Remark
  | .typeSpec spec => spec.remarks
  | .func decl => decl.remarks
  | .unknown => []

/-- All remarks in a file. -/
def File.remarks (file : File) : List Remark := file.decls.flatMap Decl.remarks

theorem remarksOfTypes_eq_flatMap (xs : List TypeExpr) :
    remarksOfTypes xs = xs.flatMap TypeExpr.remarks := by
  induction xs with
  | nil => rfl
  | cons x xs ih => rw [remarksOfTypes, ih, List.flatMap_cons]

theorem remarksOfFields_eq_flatMap (fs : List Field) :
    remarksOfFields fs = fs.flatMap Field.remarks := by
  induction fs with
  | nil => rfl
  | cons f fs ih =>
    obtain ⟨names, type, doc, comment, tag⟩ := f
    rw [remarksOfFields, ih, List.flatMap_cons, Field.remarks]

/-! ## What is true of all remarks -/

section

variable {holds : Remark → Prop}

theorem forall_remarksOfFields {fs : List Field} (h : ∀ r ∈ remarksOfFields fs, holds r) {f : Field}
    (mem : f ∈ fs) : (∀ r ∈ Remark.ofDoc f.doc, holds r) ∧ (∀ r ∈ f.type.remarks, holds r) ∧
      ∀ r ∈ Remark.ofNote f.comment, holds r := by
  rw [remarksOfFields_eq_flatMap] at h
  have own : ∀ r ∈ f.remarks, holds r := fun r here => h r (List.mem_flatMap.2 ⟨f, mem, here⟩)
  obtain ⟨front, note⟩ := List.forall_mem_append.1 own
  obtain ⟨doc, inside⟩ := List.forall_mem_append.1 front
  exact ⟨doc, inside, note⟩

theorem TypeSpec.forall_remarks {spec : TypeSpec} (h : ∀ r ∈ spec.remarks, holds r) :
    (∀ r ∈ Remark.ofDoc spec.doc, holds r) ∧ (∀ r ∈ spec.type.remarks, holds r) ∧
      ∀ r ∈ Remark.ofNote spec.comment, holds r := by
  obtain ⟨front, note⟩ := List.forall_mem_append.1 h
  obtain ⟨front, inside⟩ := List.forall_mem_append.1 front
  exact ⟨(List.forall_mem_append.1 front).1, inside, note⟩

theorem FuncDecl.forall_remarks {decl : FuncDecl} (h : ∀ r ∈ decl.remarks, holds r) :
    (∀ r ∈ Remark.ofDoc decl.doc, holds r) ∧ ∀ r ∈ decl.type.remarks, holds r := by
  obtain ⟨front, inside⟩ := List.forall_mem_append.1 h
  exact ⟨(List.forall_mem_append.1 front).1, inside⟩

end

end Typings
