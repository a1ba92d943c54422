import Typings.Decl.Basic
import Typings.TsType.OfExpr

/-!
# Rendering declarations

Structs, interfaces, functions and methods become interfaces, so that the methods of a type merge
with it; all other types become names for a type. Only what is exported is rendered.
-/

namespace Typings

/-- Why a declaration cannot be rendered. -/
inductive RenderError where
  | unknownDecl
  deriving DecidableEq, Repr

/-- The error in words. -/
def RenderError.message : RenderError → String
  | .unknownDecl => "unhandled decl type"

/-- The name that decides whether an embedded type is visible: `Base` for `*pkg.Base[T]`. -/
def TypeExpr.visibleName (x : TypeExpr) : String :=
  let base :=
    match x.deref with
    | .generic x _ => x
    | x => x
  match base with
  | .name n => n
  | .selector _ sel => sel
  | _ => ""

/-- The visible types that are embedded among some fields. -/
def Field.visibleBases (fields : List Field) : List TypeExpr :=
  (fields.filter fun f => f.names.isEmpty && Name.isVisible f.type.visibleName).map Field.type

/-- The member that is a function: its signature follows its key, which is empty if the interface
itself can be called. -/
def TsMember.call (doc : List String) (key : String) (type : TsType) (note : String) : TsMember :=
  { doc := doc, key := key, optional := false, colon := false, type := type, note := note }

namespace TsDecl

/-- The bases of an interface. -/
def basesOf (ctx : Context) (fields : List Field) : List TsType :=
  (Field.visibleBases fields).map (.ofExpr ctx ctx.room .base)

/-- A type specification, unless it is hidden. -/
def ofTypeSpec? (ctx : Context) (spec : TypeSpec) : Option TsDecl :=
  if Name.isVisible spec.name then
    let params := Field.allNames spec.typeParams
    let ctx := ctx.within params
    some <|
      match spec.type with
      | .struct fields =>
        .interface (docOf spec.doc) spec.name params (basesOf ctx fields)
          (structMembers ctx ctx.room fields)
      | .interface methods =>
        .interface (docOf spec.doc) spec.name params (basesOf ctx methods)
          (interfaceMembers ctx ctx.room methods)
      | .func ps rs tps =>
        .interface (docOf spec.doc) spec.name params []
          [.call [] "" (.ofExpr ctx ctx.room .plain (.func ps rs tps)) (noteOf spec.comment)]
      | type =>
        .synonym (docOf spec.doc) spec.name params (.ofExpr ctx ctx.room .plain type)
          (noteOf spec.comment)
  else none

/-- A method in the interface of its receiver, unless either is hidden. -/
def ofMethod? (ctx : Context) (decl : FuncDecl) (recv : Field) : Option TsDecl :=
  let (name, params) := recv.receiver
  if Name.isVisible decl.name && Name.isVisible name then
    let ctx := ctx.within (params ++ Field.allNames decl.typeParams)
    let key := Name.propertyKey (ctx.config.methodNames.apply decl.name)
    some <| .interface [] name params []
      [.call (docOf decl.doc) key (.ofExpr ctx ctx.room .plain decl.type) ""]
  else none

/-- A function as an interface that can be called, unless it is hidden. -/
def ofFunction? (ctx : Context) (decl : FuncDecl) : Option TsDecl :=
  if Name.isVisible decl.name then
    let params := Field.allNames decl.typeParams
    let ctx := ctx.within params
    some <| .interface (docOf decl.doc) decl.name params []
      [.call [] "" (.ofExpr ctx ctx.room .plain decl.type) ""]
  else none

/-- A declaration, unless it is hidden. -/
def ofDecl (ctx : Context) : Decl → Except RenderError (Option TsDecl)
  | .typeSpec spec => .ok (ofTypeSpec? ctx spec)
  | .func decl =>
    .ok <|
      match decl.recv with
      | some recv => ofMethod? ctx decl recv
      | none => ofFunction? ctx decl
  | .unknown => .error .unknownDecl

/-- The declarations that are not hidden, in order. -/
def ofDecls (ctx : Context) : List Decl → Except RenderError (List TsDecl)
  | [] => .ok []
  | d :: ds => do
    let first ← ofDecl ctx d
    let rest ← ofDecls ctx ds
    .ok (first.toList ++ rest)

/-- If each declaration can be rendered, then all can be, and what is true of each that is not hidden
is true of them all. -/
theorem forall_ofDecls {ctx : Context} {holds : TsDecl → Prop} {ds : List Decl}
    (h : ∀ d ∈ ds, ∃ t, ofDecl ctx d = .ok t ∧ ∀ u ∈ t, holds u) :
    ∃ ts, ofDecls ctx ds = .ok ts ∧ ∀ t ∈ ts, holds t := by
  induction ds with
  | nil => exact ⟨[], rfl, List.forall_mem_nil _⟩
  | cons d ds ih =>
    obtain ⟨⟨t, first, here⟩, rest⟩ := List.forall_mem_cons.1 h
    obtain ⟨ts, others, behind⟩ := ih rest
    refine ⟨t.toList ++ ts, ?_, List.forall_mem_append.2 ⟨?_, behind⟩⟩
    · rw [ofDecls, first, others]
      rfl
    · exact fun u mem => here u (Option.mem_toList.1 mem)

end TsDecl

end Typings
