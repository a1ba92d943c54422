import Mathlib.Data.List.Basic
import Typings.Proofs.Members.Parts
import Typings.Text.CodePoint

/-!
# Types that are rendered with texts of code points

The texts of mappings may have surrogates in them. With characters filled in for these, a type is rendered
as a tree whose words are filled in alike: nothing else depends on what is filled in (`rendersFilled`). So
the text of the tree is one text of code points with these characters filled in (`TsType.Filled.text`), and
the issues met on the way are the same (`TsType.Filled.issues`).
-/

namespace Typings

section

variable {among : List Surrogate}

/-! ## Filled strings -/

/-- The strings are one text, whose surrogates are among the given ones, with characters filled in. -/
def IsFilled (among : List Surrogate) (text : StandIn → String) : Prop :=
  ∃ t : CodePoints, (∀ s, .surrogate s ∈ t → s ∈ among) ∧ ∀ standIn, text standIn = t.fill standIn

namespace IsFilled

variable {text more : StandIn → String}

/-- Nothing is filled in. -/
theorem const (s : String) : IsFilled among fun _ => s := by
  refine ⟨.ofString s, fun x mem => ?_, fun standIn => (CodePoints.fill_ofString standIn s).symm⟩
  obtain ⟨c, -, same⟩ := List.mem_map.1 mem
  cases same

/-- Texts that are filled in stand one behind the other. -/
theorem append (h : IsFilled among text) (h' : IsFilled among more) :
    IsFilled among fun standIn => text standIn ++ more standIn := by
  obtain ⟨t, all, fills⟩ := h
  obtain ⟨u, all', fills'⟩ := h'
  refine ⟨t ++ u, fun s mem => (List.mem_append.1 mem).elim (all s) (all' s), fun standIn => ?_⟩
  rw [CodePoints.fill_append, ← fills, ← fills']

/-- A text between two strings. -/
theorem between (h : IsFilled among text) (before after : String) :
    IsFilled among fun standIn => before ++ text standIn ++ after :=
  ((const before).append h).append (const after)

/-- Texts that are filled in are joined to one that is. -/
theorem join {texts : List (StandIn → String)} (h : ∀ text ∈ texts, IsFilled among text) :
    IsFilled among fun standIn => String.join (texts.map fun text => text standIn) := by
  induction texts with
  | nil => exact const ""
  | cons text texts ih =>
    obtain ⟨first, rest⟩ := List.forall_mem_cons.1 h
    simp only [List.map_cons, String.join_cons]
    exact first.append (ih rest)

/-- In a separator nothing is filled in. -/
theorem intercalate (separator : String) {texts : List (StandIn → String)}
    (h : ∀ text ∈ texts, IsFilled among text) :
    IsFilled among fun standIn => separator.intercalate (texts.map fun text => text standIn) := by
  induction texts with
  | nil => exact const ""
  | cons text texts ih =>
    obtain ⟨first, rest⟩ := List.forall_mem_cons.1 h
    cases texts with
    | nil =>
      simp only [List.map_singleton, String.intercalate_singleton]
      exact first
    | cons next texts =>
      simp only [List.map_cons, String.intercalate_cons_cons]
      exact (first.append (const separator)).append (ih rest)

end IsFilled

/-! ## Filled types -/

/-- The types are one tree whose verbatim texts have characters filled in. -/
inductive TsType.Filled (among : List Surrogate) : (StandIn → TsType) → Prop where
  | verbatim {text : StandIn → String} : IsFilled among text →
      Filled among fun standIn => .verbatim (text standIn)
  | unresolved (name : String) : Filled among fun _ => .unresolved name
  | cut (limit : Int) : Filled among fun _ => .cut limit
  | dropped (op : String) : Filled among fun _ => .dropped op
  | array {x : StandIn → TsType} : Filled among x → Filled among fun standIn => .array (x standIn)
  | bytes {x : StandIn → TsType} : Filled among x → Filled among fun standIn => .bytes (x standIn)
  | list {x : StandIn → TsType} : Filled among x → Filled among fun standIn => .list (x standIn)
  | paren {x : StandIn → TsType} : Filled among x → Filled among fun standIn => .paren (x standIn)
  | nullable {x : StandIn → TsType} : Filled among x →
      Filled among fun standIn => .nullable (x standIn)
  | binary {x y : StandIn → TsType} (op : String) : Filled among x → Filled among y →
      Filled among fun standIn => .binary (x standIn) op (y standIn)
  | generic {base : StandIn → TsType} {args : List (StandIn → TsType)} : Filled among base →
      (∀ x ∈ args, Filled among x) →
      Filled among fun standIn => .generic (base standIn) (args.map fun x => x standIn)
  | object {members : List (TsMember × (StandIn → TsType))} : (∀ m ∈ members, Filled among m.2) →
      Filled among fun standIn => .object (members.map fun m => { m.1 with type := m.2 standIn })
  | arrow {params : List (TsParam × (StandIn → TsType))} {result : StandIn → TsType} :
      (∀ p ∈ params, Filled among p.2) → Filled among result →
      Filled among fun standIn =>
        .arrow (params.map fun p => { p.1 with type := p.2 standIn }) (result standIn)
  | signature {params : List (TsParam × (StandIn → TsType))} {result : StandIn → TsType} :
      (∀ p ∈ params, Filled among p.2) → Filled among result →
      Filled among fun standIn =>
        .signature (params.map fun p => { p.1 with type := p.2 standIn }) (result standIn)
  | tuple {items : List (StandIn → TsType)} : (∀ x ∈ items, Filled among x) →
      Filled among fun standIn => .tuple (items.map fun x => x standIn)

namespace TsType.Filled

variable {x y : StandIn → TsType} {indent : String} {depth : Int}

/-- To be filled in is a matter of what comes of each stand-in. -/
theorem of_eq (h : Filled among x) (same : ∀ standIn, y standIn = x standIn) : Filled among y :=
  funext same ▸ h

/-! ### Texts -/

/-- Between types there are commas, and nothing else is filled in. -/
theorem texts {items : List (StandIn → TsType)}
    (h : ∀ x ∈ items, IsFilled among fun standIn => (x standIn).text indent depth) :
    IsFilled among fun standIn =>
      ", ".intercalate (textsOfTypes indent depth (items.map fun x => x standIn)) := by
  have all := IsFilled.intercalate ", " (List.forall_mem_map.2 h)
  simp only [textsOfTypes_eq_map, List.map_map] at all ⊢
  exact all

/-- Of a parameter, only the type is filled in. -/
theorem paramTexts {params : List (TsParam × (StandIn → TsType))}
    (h : ∀ p ∈ params, IsFilled among fun standIn => (p.2 standIn).text indent depth) :
    IsFilled among fun standIn => ", ".intercalate
      (textsOfParams indent depth (params.map fun p => { p.1 with type := p.2 standIn })) := by
  have each : ∀ p ∈ params, IsFilled among fun standIn =>
      TsParam.text indent depth { p.1 with type := p.2 standIn } := fun p mem =>
    (h p mem).between ((if p.1.spread then "..." else "") ++ p.1.name ++ ": ") (paramNote p.1.note)
  have all := IsFilled.intercalate ", " (List.forall_mem_map.2 each)
  simp only [textsOfParams_eq_map, List.map_map] at all ⊢
  exact all

/-- Of a member, only the type is filled in. -/
theorem memberTexts {members : List (TsMember × (StandIn → TsType))}
    (h : ∀ m ∈ members, IsFilled among fun standIn => (m.2 standIn).text indent depth) :
    IsFilled among fun standIn =>
      textOfMembers indent depth (members.map fun m => { m.1 with type := m.2 standIn }) := by
  have each : ∀ m ∈ members, IsFilled among fun standIn =>
      TsMember.block indent depth { m.1 with type := m.2 standIn } := by
    intro m mem
    have line := (h m mem).between
      (docBlock (indentText indent depth) m.1.doc ++ indentText indent depth ++ m.1.key
        ++ (if m.1.optional then "?" else "") ++ (if m.1.colon then ": " else ""))
      (lineEndText m.1.note)
    simp only [TsMember.block, WrittenMember.line, WrittenMember.text, TsMember.text,
      String.append_assoc] at line ⊢
    exact line
  have all := IsFilled.join (List.forall_mem_map.2 each)
  simp only [textOfMembers_eq_join, List.map_map] at all ⊢
  exact all

/-- The text of a filled type is filled, as that of each part is. -/
theorem text (h : Filled among x) (indent : String) (depth : Int) :
    IsFilled among fun standIn => (x standIn).text indent depth := by
  induction h generalizing depth with
  | verbatim text => exact text
  | unresolved name => exact .const name
  | cut _ => exact .const "any"
  | dropped _ => exact .const ""
  | array _ ih => exact (ih depth).between "Array<" ">"
  | bytes _ ih => exact (ih depth).between "string|Array<" ">"
  | list _ ih => exact (ih depth).append (.const "[]")
  | paren _ ih => exact (ih depth).between "(" ")"
  | nullable _ ih => exact (ih depth).append (.const " | undefined")
  | binary op _ _ left right =>
    have first := (((left depth).append (.const " ")).append (.const op)).append (.const " ")
    exact first.append (right depth)
  | generic _ _ base items =>
    have inside := texts fun x mem => items x mem depth
    exact (((base depth).append (.const "<")).append inside).append (.const ">")
  | object _ members =>
    have inside := memberTexts fun m mem => members m mem (depth + 1)
    have body := (inside.between "\x7b\n" (indentText indent depth)).append (.const "\x7d")
    exact body
  | arrow _ _ params result =>
    exact ((paramTexts fun p mem => params p mem depth).between "(" ") => ").append (result depth)
  | signature _ _ params result =>
    exact ((paramTexts fun p mem => params p mem depth).between "(" "): ").append (result depth)
  | tuple _ items => exact (texts fun x mem => items x mem depth).between "[" "]"

/-! ### Issues -/

/-- Nothing that is filled in is an issue. -/
theorem issues (h : Filled among x) (standIn other : StandIn) :
    (x standIn).issues = (x other).issues := by
  induction h with
  | verbatim | unresolved | cut | dropped => rfl
  | array _ ih | bytes _ ih | list _ ih | paren _ ih | nullable _ ih => exact ih
  | binary op _ _ left right => rw [TsType.issues, TsType.issues, left, right]
  | generic _ _ base items =>
    rw [TsType.issues, TsType.issues, base, issuesOfTypes_eq_flatMap, issuesOfTypes_eq_flatMap,
      List.flatMap_map, List.flatMap_map, List.flatMap_congr items]
  | object _ members =>
    rw [TsType.issues, TsType.issues, issuesOfMembers_eq_flatMap, issuesOfMembers_eq_flatMap,
      List.flatMap_map, List.flatMap_map, List.flatMap_congr members]
  | arrow _ _ params result | signature _ _ params result =>
    rw [TsType.issues, TsType.issues, result, issuesOfParams_eq_flatMap, issuesOfParams_eq_flatMap,
      List.flatMap_map, List.flatMap_map, List.flatMap_congr params]
  | tuple _ items =>
    rw [TsType.issues, TsType.issues, issuesOfTypes_eq_flatMap, issuesOfTypes_eq_flatMap,
      List.flatMap_map, List.flatMap_map, List.flatMap_congr items]

end TsType.Filled

end

end Typings
