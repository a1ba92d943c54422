import Typings.TsDecl.OfDecl

/-!
# The forms of declarations

A declaration that is not hidden is rendered by the form of its type, or as a method or a function
(`Decl.RendersTo`). So what is shown of each form is true of whatever a declaration is rendered as
(`Decl.exists_rendered`).
-/

namespace Typings

open TsDecl (basesOf)

/-- What a declaration is rendered as, unless it is hidden. -/
inductive Decl.RendersTo (ctx : Context) : Decl → TsDecl → Prop where
  | struct {spec : TypeSpec} {fields : List Field} (visible : Name.isVisible spec.name = true)
      (form : spec.type = .struct fields) :
      RendersTo ctx (.typeSpec spec)
        (.interface (docOf spec.doc) spec.name (Field.allNames spec.typeParams)
          (basesOf (ctx.within (Field.allNames spec.typeParams)) fields)
          (structMembers (ctx.within (Field.allNames spec.typeParams)) ctx.room fields))
  | interface {spec : TypeSpec} {methods : List Field} (visible : Name.isVisible spec.name = true)
      (form : spec.type = .interface methods) :
      RendersTo ctx (.typeSpec spec)
        (.interface (docOf spec.doc) spec.name (Field.allNames spec.typeParams)
          (basesOf (ctx.within (Field.allNames spec.typeParams)) methods)
          (interfaceMembers (ctx.within (Field.allNames spec.typeParams)) ctx.room methods))
  | callable {spec : TypeSpec} {params results typeParams : List Field}
      (visible : Name.isVisible spec.name = true) (form : spec.type = .func params results typeParams) :
      RendersTo ctx (.typeSpec spec)
        (.interface (docOf spec.doc) spec.name (Field.allNames spec.typeParams) []
          [.call [] "" (.ofExpr (ctx.within (Field.allNames spec.typeParams)) ctx.room .plain
            (.func params results typeParams)) (noteOf spec.comment)])
  | synonym {spec : TypeSpec} (visible : Name.isVisible spec.name = true)
      (struct : ∀ fields, spec.type ≠ .struct fields)
      (interface : ∀ methods, spec.type ≠ .interface methods)
      (func : ∀ params results typeParams, spec.type ≠ .func params results typeParams) :
      RendersTo ctx (.typeSpec spec)
        (.synonym (docOf spec.doc) spec.name (Field.allNames spec.typeParams)
          (.ofExpr (ctx.within (Field.allNames spec.typeParams)) ctx.room .plain spec.type)
          (noteOf spec.comment))
  | method {decl : FuncDecl} {recv : Field} (owner : decl.recv = some recv)
      (visible : Name.isVisible decl.name = true) (ownerVisible : Name.isVisible recv.receiver.1 = true) :
      RendersTo ctx (.func decl)
        (.interface [] recv.receiver.1 recv.receiver.2 []
          [.call (docOf decl.doc) (Name.propertyKey (ctx.config.methodNames.apply decl.name))
            (.ofExpr (ctx.within (recv.receiver.2 ++ Field.allNames decl.typeParams)) ctx.room .plain
              decl.type) ""])
  | function {decl : FuncDecl} (alone : decl.recv = none) (visible : Name.isVisible decl.name = true) :
      RendersTo ctx (.func decl)
        (.interface (docOf decl.doc) decl.name (Field.allNames decl.typeParams) []
          [.call [] "" (.ofExpr (ctx.within (Field.allNames decl.typeParams)) ctx.room .plain decl.type) ""])

namespace TsDecl

variable {ctx : Context}

/-- A type is rendered by the form of what it stands for, if its name is visible. -/
theorem rendersTo_ofTypeSpec? {spec : TypeSpec} :
    ∀ t ∈ ofTypeSpec? ctx spec, (Decl.typeSpec spec).RendersTo ctx t := by
  intro t mem
  unfold ofTypeSpec? at mem
  split at mem
  · next visible =>
    obtain rfl := Option.mem_some_iff.1 mem
    split
    · next fields form => exact .struct visible form
    · next methods form => exact .interface visible form
    · next params results typeParams form => exact .callable visible form
    · next struct interface func => exact .synonym visible struct interface func
  · cases mem

/-- A method is rendered into the interface of its receiver, in the scope of both. -/
theorem rendersTo_ofMethod? {decl : FuncDecl} {recv : Field} (owner : decl.recv = some recv) :
    ∀ t ∈ ofMethod? ctx decl recv, (Decl.func decl).RendersTo ctx t := by
  intro t mem
  unfold ofMethod? at mem
  dsimp only at mem
  split at mem
  · next visible =>
    obtain rfl := Option.mem_some_iff.1 mem
    obtain ⟨own, type⟩ := Bool.and_eq_true_iff.1 visible
    exact .method owner own type
  · cases mem

/-- A function is rendered as a callable interface, in the scope of its parameters. -/
theorem rendersTo_ofFunction? {decl : FuncDecl} (alone : decl.recv = none) :
    ∀ t ∈ ofFunction? ctx decl, (Decl.func decl).RendersTo ctx t := by
  intro t mem
  unfold ofFunction? at mem
  split at mem
  · next visible =>
    obtain rfl := Option.mem_some_iff.1 mem
    exact .function alone visible
  · cases mem

end TsDecl

/-- A declaration of a known form can be rendered, and if it is not hidden, then by its form. -/
theorem Decl.exists_rendered (ctx : Context) {d : Decl} (known : d ≠ .unknown) :
    ∃ rendered, TsDecl.ofDecl ctx d = .ok rendered ∧ ∀ t ∈ rendered, d.RendersTo ctx t := by
  cases d with
  | typeSpec spec => exact ⟨_, rfl, TsDecl.rendersTo_ofTypeSpec?⟩
  | func decl =>
    refine ⟨_, rfl, ?_⟩
    cases owner : decl.recv with
    | none => exact TsDecl.rendersTo_ofFunction? owner
    | some recv => exact TsDecl.rendersTo_ofMethod? owner
  | unknown => exact absurd rfl known

end Typings
