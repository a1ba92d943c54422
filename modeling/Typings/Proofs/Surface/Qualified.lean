import Typings.Proofs.Surface.Unresolved
import Typings.Rendering

/-!
# Chains of selectors

A chain `root.a.b` is to be looked up under its parts joined by dots if its root is a name, and to be `any`
without a look at the mappings if it is not (`TypeExpr.Resolves`). That a root is no name is told by an empty
qualified name, which the next selector extends as if it were one: a chain on what is no name is `any` only
if it has a single selector (`TypeExpr.resolves_selector_iff`), and is looked up under a name that begins
with a dot if it has more.
-/

namespace Typings

/-! ## Chains -/

namespace TypeExpr

/-- What the selectors of a chain stand behind: its innermost operand. -/
def root : TypeExpr → TypeExpr
  | .selector x _ => x.root
  | x => x

/-- The selectors of a chain, in the order in which they are written. -/
def selectors : TypeExpr → List String
  | .selector x sel => x.selectors ++ [sel]
  | _ => []

/-- The name of the root, empty if it is none. -/
def rootName (x : TypeExpr) : String := x.root.name?.getD ""

/-- The qualified name joins the name of the root and all selectors, also if the root is no name. -/
theorem qualifiedName_eq_intercalate (x : TypeExpr) :
    x.qualifiedName = ".".intercalate (x.rootName :: x.selectors) := by
  cases x with
  | selector x sel =>
    show x.qualifiedName ++ "." ++ sel = ".".intercalate ((x.rootName :: x.selectors) ++ [sel])
    rw [qualifiedName_eq_intercalate x, String.intercalate_append_of_ne_nil (List.cons_ne_nil _ _)
      (List.cons_ne_nil _ _), String.intercalate_singleton]
  | _ => exact String.intercalate_singleton.symm

/-- Behind a selector no qualified name is empty: it holds a dot. -/
theorem qualifiedName_eq_empty_iff (x : TypeExpr) :
    x.qualifiedName = "" ↔ x.rootName = "" ∧ x.selectors = [] := by
  cases x with
  | selector x sel =>
    refine iff_of_false (fun empty => ?_) fun none => List.append_ne_nil_of_right_ne_nil _
      (List.cons_ne_nil sel []) none.2
    have dot : x.qualifiedName ++ "." = "" := (String.append_eq_empty_iff.1 empty).1
    exact absurd (String.append_eq_empty_iff.1 dot).2 (by decide)
  | _ => exact (and_iff_left rfl).symm

end TypeExpr

/-! ## Lookups -/

/-- A context with other mappings. -/
def Context.mapping (ctx : Context) (mappings : Mappings) : Context :=
  { ctx with config := { ctx.config with mappings := mappings } }

/-- What a name of several parts is rendered as: the mapping of the whole name, or that of all names with
its qualifier; else the name is written as it stands and is unresolved. -/
def Context.ofParts (ctx : Context) (qualifier : List String) (last : String) : TsType :=
  match (ctx.config.mappings.find? (".".intercalate (qualifier ++ [last]))).or
      (ctx.config.mappings.find? (".".intercalate qualifier ++ ".*")) with
  | some text => .verbatim text
  | none => .unresolved (".".intercalate (qualifier ++ [last]))

/-- A qualifier of parts is looked up by them. -/
theorem Context.ofSelector_of_ne {ctx : Context} {x : TypeExpr} {sel : String}
    (named : x.qualifiedName ≠ "") :
    ctx.ofSelector x sel = ctx.ofParts (x.rootName :: x.selectors) sel := by
  have whole : ".".intercalate ((x.rootName :: x.selectors) ++ [sel]) =
      x.qualifiedName ++ "." ++ sel := (TypeExpr.selector x sel).qualifiedName_eq_intercalate.symm
  rw [ofSelector, if_neg named, ofParts, whole, ← x.qualifiedName_eq_intercalate]
  rfl

namespace TypeExpr

/-- The expression is rendered as `any` wherever it stands, leaves no name, and is rendered alike with all
mappings. -/
structure Degrades (x : TypeExpr) : Prop where
  text : ∀ ctx room slot indent depth, (TsType.ofExpr ctx room slot x).text indent depth = "any"
  not_leaves : ∀ ctx room slot name, ¬(TsType.ofExpr ctx room slot x).Leaves name
  unmapped : ∀ ctx room slot mappings,
    TsType.ofExpr (ctx.mapping mappings) room slot x = TsType.ofExpr ctx room slot x

/-- The expression is looked up as the name of these parts wherever it is rendered at all. -/
def LooksUp (x : TypeExpr) (qualifier : List String) (last : String) : Prop :=
  ∀ ctx room slot, TsType.ofExpr ctx (room + 1) slot x = ctx.ofParts qualifier last

/-- A chain on a name is looked up under the name and the selectors; a chain on anything else degrades. -/
def Resolves (x : TypeExpr) (last : String) : Prop :=
  match x.root.name? with
  | some n => (selector x last).LooksUp (n :: x.selectors) last
  | none => (selector x last).Degrades

variable {x : TypeExpr} {sel : String}

theorem degrades_of_empty (empty : x.qualifiedName = "") : (selector x sel).Degrades where
  text ctx room slot indent depth := by
    cases room with
    | zero => rfl
    | succ room =>
      show (ctx.ofSelector x sel).text indent depth = "any"
      rw [Context.ofSelector, if_pos empty, TsType.text]
  not_leaves ctx room slot name leaves := by
    cases room with
    | zero => cases List.mem_singleton.1 leaves
    | succ room =>
      cases (ctx.leaves_ofSelector x sel).1 leaves with
      | qualified named => exact named empty
  unmapped ctx room slot mappings := by
    cases room with
    | zero => rfl
    | succ room =>
      show (ctx.mapping mappings).ofSelector x sel = ctx.ofSelector x sel
      rw [Context.ofSelector, if_pos empty, Context.ofSelector, if_pos empty]

theorem looksUp_of_ne (named : x.qualifiedName ≠ "") :
    (selector x sel).LooksUp (x.rootName :: x.selectors) sel :=
  fun _ _ _ => Context.ofSelector_of_ne named

/-- Nothing is both: without mappings, what is looked up is left unresolved. -/
theorem LooksUp.not_degrades {qualifier : List String} {last : String}
    (looksUp : x.LooksUp qualifier last) : ¬x.Degrades := by
  intro degrades
  let ctx : Context := { config := {} }
  have left : (TsType.ofExpr ctx 1 .plain x).Leaves (".".intercalate (qualifier ++ [last])) := by
    rw [looksUp ctx 0 .plain]
    exact TsType.leaves_unresolved.2 rfl
  exact degrades.not_leaves ctx 1 .plain _ left

/-- A chain degrades exactly if its qualifier is the empty name. -/
theorem selector_degrades_iff :
    (selector x sel).Degrades ↔ x.rootName = "" ∧ x.selectors = [] := by
  rw [← x.qualifiedName_eq_empty_iff]
  constructor
  · intro degrades
    by_cases empty : x.qualifiedName = ""
    · exact empty
    · exact absurd degrades (looksUp_of_ne empty).not_degrades
  · exact degrades_of_empty

/-- A chain is looked up under the name of its root and its selectors unless its qualifier is the empty
name: the name begins with a dot if its root is none. -/
theorem selector_looksUp_iff :
    (selector x sel).LooksUp (x.rootName :: x.selectors) sel ↔
      ¬(x.rootName = "" ∧ x.selectors = []) := by
  rw [← x.qualifiedName_eq_empty_iff]
  exact ⟨fun looksUp empty => looksUp.not_degrades (degrades_of_empty empty), looksUp_of_ne⟩

/-- A chain resolves as it should exactly if it has a single selector, should its root be no name, and more
than one, should its root be the empty name. -/
theorem resolves_selector_iff (x : TypeExpr) (sel : String) :
    x.Resolves sel ↔ (x.root.name? = none → x.selectors = []) ∧
      (x.root.name? = some "" → x.selectors ≠ []) := by
  cases root : x.root.name? with
  | none =>
    have nameless : x.rootName = "" := by rw [rootName, root, Option.getD_none]
    rw [Resolves, root]
    refine selector_degrades_iff.trans ⟨fun single => ?_, fun single => ?_⟩
    · exact ⟨fun _ => single.2, fun empty => absurd empty (by simp)⟩
    · exact ⟨nameless, single.1 rfl⟩
  | some n =>
    have named : x.rootName = n := by rw [rootName, root, Option.getD_some]
    have looksUp : x.Resolves sel ↔ ¬(n = "" ∧ x.selectors = []) := by
      rw [Resolves, root, ← named]
      exact selector_looksUp_iff
    refine looksUp.trans ⟨fun more => ?_, fun more => ?_⟩
    · refine ⟨fun none => absurd none (by simp), fun empty single => more ⟨?_, single⟩⟩
      exact Option.some.inj empty
    · rintro ⟨rfl, single⟩
      exact more.2 rfl single

/-- Two selectors on an array are looked up and reported under a name that begins with a dot. -/
theorem not_resolves_array :
    let x : TypeExpr := .selector (.array (.name "int") none) "X"
    ¬x.Resolves "Y" ∧ (Rendering.ofType {} .plain (.selector x "Y")).text = ".X.Y" ∧
      (Rendering.ofType {} .plain (.selector x "Y")).noted.unknown.toList = [".X.Y"] := by
  intro x
  refine ⟨fun resolves => ?_, by decide, by decide⟩
  have left : (TsType.ofExpr { config := {} } 1 .plain (.selector x "Y")).Leaves ".X.Y" :=
    TsType.leaves_unresolved.2 rfl
  exact (show (selector x "Y").Degrades from resolves).not_leaves _ _ _ _ left

end TypeExpr

end Typings
