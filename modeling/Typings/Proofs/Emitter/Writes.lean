import Mathlib.Data.List.Forall2
import Typings.Proofs.Emitter.Basic

/-!
# What is written

`w.Writes ctx level a issues` says that an emitter with these options and this scope, inside of so many
types, writes `a` and notes the issues, and changes nothing else. One law for each way to put writings
together says how the texts and the issues go together; a writing that sets the level or the scope sets
it back.
-/

namespace Typings

namespace Diagnostics

theorem add_nil (d : Diagnostics) : d.add [] = d := by
  simp only [add, List.filterMap_nil, List.append_nil]
  rfl

/-- Diagnostics grow issue by issue. -/
theorem add_append (d : Diagnostics) (xs ys : List Issue) : d.add (xs ++ ys) = (d.add xs).add ys := by
  simp only [add, List.filterMap_append, NameSet.insertAll, List.foldl_append, List.append_assoc]

end Diagnostics

namespace Emitter

theorem note_nil (e : Emitter) : e.note [] = e := by rw [note, Diagnostics.add_nil]

/-- What is noted in two parts is noted one part behind the other. -/
theorem note_append (e : Emitter) (xs ys : List Issue) :
    e.note (xs ++ ys) = (e.note xs).note ys := by
  simp only [note, Diagnostics.add_append]

end Emitter

namespace Writing

/-- In this context and at this level, something is written, some issues are noted, and all else stays
as it was. -/
def Writes {α : Type} (w : Writing α) (ctx : Context) (level : Int) (a : α) (issues : List Issue) :
    Prop :=
  ∀ e : Emitter, e.context = ctx → e.level = level → w e = (a, e.note issues)

namespace Writes

variable {α β : Type} {ctx : Context} {level : Int} {w : Writing α} {a : α} {b : β}
  {issues more : List Issue}

/-- A value alone writes nothing and notes nothing. -/
theorem pure (a : α) : (Pure.pure a : Writing α).Writes ctx level a [] := by
  intro e _ _
  rw [e.note_nil]
  rfl

/-- What two writers note, one behind the other, is put together in their order. -/
theorem bind {f : α → Writing β} (h : w.Writes ctx level a issues)
    (k : (f a).Writes ctx level b more) : (w >>= f).Writes ctx level b (issues ++ more) := by
  intro e context inside
  have next : (w >>= f) e = f (w e).1 (w e).2 := rfl
  rw [next, h e context inside, k (e.note issues) context inside, e.note_append]

/-- A text that is made of another one. -/
theorem map (h : w.Writes ctx level a issues) (f : α → β) :
    (w >>= fun a => Pure.pure (f a)).Writes ctx level (f a) issues := by
  have both := h.bind (f := fun a => Pure.pure (f a)) (Writes.pure (f a))
  rwa [List.append_nil] at both

/-- A writer that looks at the state sees the scope and the level it runs in. -/
theorem get {f : Emitter → Writing α}
    (k : ∀ e : Emitter, e.context = ctx → e.level = level → (f e).Writes ctx level a issues) :
    (MonadState.get >>= f).Writes ctx level a issues :=
  fun e context inside => k e context inside e context inside

/-- The indentation is that of the configuration. -/
theorem indent : Writing.indent.Writes ctx level ctx.config.indent [] :=
  get fun e context _ => by rw [context]; exact pure _

/-- A report notes its one issue. -/
theorem report (issue : Issue) : (Writing.report issue).Writes ctx level () [issue] :=
  fun _ _ _ => rfl

/-- A type without parts is written as it is rendered, with the same issues. -/
theorem leaf {tree : Context → TsType} :
    (Writing.leaf tree).Writes ctx level ((tree ctx).text "" 0) (tree ctx).issues := by
  intro e context _
  rw [← context]
  rfl

/-- Texts one after another, each from a part of something. -/
theorem inOrder {γ : Type} {text : γ → String} {issuesOf : γ → List Issue}
    {ws : List (Writing String)} {xs : List γ}
    (h : List.Forall₂ (fun w x => w.Writes ctx level (text x) (issuesOf x)) ws xs) :
    (Writing.inOrder ws).Writes ctx level (xs.map text) (xs.flatMap issuesOf) := by
  induction h with
  | nil => exact pure []
  | cons first _ ih => exact first.bind (ih.map _)

/-- A type with room for it is written one level further in, and the level is then set back. -/
theorem nested {w : Writing String} {text : String} (room : level < ctx.config.maxDepth)
    (h : w.Writes ctx (level + 1) text issues) : (Writing.nested w).Writes ctx level text issues := by
  refine get fun e context inside => ?_
  rw [context, inside, if_neg (Int.not_le.2 room)]
  clear e context inside
  intro e context inside
  have within := h { e with level := e.level + 1 } context (congrArg (· + 1) inside)
  change ((w { e with level := e.level + 1 }).1, { (w { e with level := e.level + 1 }).2 with
    level := (w { e with level := e.level + 1 }).2.level - 1 }) = _
  rw [within]
  change (text, { e.note issues with level := e.level + 1 - 1 }) = (text, e.note issues)
  rw [Int.add_sub_cancel]
  rfl

/-- A type without room for it is cut. -/
theorem cut {w : Writing String} (full : ctx.config.maxDepth ≤ level) :
    (Writing.nested w).Writes ctx level "any" [.tooDeep ctx.config.maxDepth] := by
  refine get fun e context inside => ?_
  rw [context, inside, if_pos full]
  exact (report _).map _

/-- A declaration is written with its type parameters in scope, and the scope is then set back. -/
theorem inScope {w : Writing String} {text : String} {names : List String}
    (h : w.Writes (ctx.within names) level text issues) :
    (Writing.inScope names w).Writes ctx level text issues := by
  intro e context inside
  let widened := e.withScope (e.context.typeParams.insertAll names)
  have within := h widened (by rw [← context]; rfl) inside
  change ((w widened).1, (w widened).2.withScope e.context.typeParams) = _
  rw [within]
  rfl

end Writes

end Writing

end Typings
