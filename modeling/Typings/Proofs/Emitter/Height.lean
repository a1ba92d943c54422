import Mathlib.Order.MinMax
import Typings.Proofs.Emitter.Types
import Typings.Proofs.Surface.Unresolved

/-!
# How many levels a type takes

The height of a type is the greatest number of nodes that are written one inside of the other for it.
A limit on the levels shows exactly if the type is higher than the limit: then some part of it is cut,
and it is reported; else the limit might as well be any larger one (`Session.type_limited`).

The height is computed on the source alone. What is skipped or unwrapped on the way has no level of its
own: hidden members, the outermost pointer of a member or a parameter, an error that ends the results,
the contents of maps and channels.
-/

namespace Typings

mutual

/-- The greatest number of nodes that are written one inside of the other. -/
def TypeExpr.height : TypeExpr → Nat
  | .pointer x | .paren x => x.height + 1
  | .variadic elt => if elt.isNamed "byte" then 1 else elt.height + 1
  | .array elt _ => elt.height + 1
  | .struct fields => heightOfMembers fields + 1
  | .interface methods => heightOfMethods methods + 1
  | .binary x _ y => max x.height y.height + 1
  | .func params results _ => max (heightOfParams params) (heightOfResults results) + 1
  | .unary op x => if op = "~" then x.height + 1 else 1
  | .generic x args => max x.height (heightOfTypes args) + 1
  | _ => 1

/-- The height of the highest type. -/
def heightOfTypes : List TypeExpr → Nat
  | [] => 0
  | x :: xs => max x.height (heightOfTypes xs)

/-- The height of the highest member that is visible; a pointer stands for what it points to. -/
def heightOfMembers : List Field → Nat
  | [] => 0
  | ⟨names, .pointer x, _, _, _⟩ :: fields =>
    if names.any Name.isVisible then max x.height (heightOfMembers fields)
    else heightOfMembers fields
  | ⟨names, x, _, _, _⟩ :: fields =>
    if names.any Name.isVisible then max x.height (heightOfMembers fields)
    else heightOfMembers fields

/-- The height of the highest method that is visible. -/
def heightOfMethods : List Field → Nat
  | [] => 0
  | ⟨names, x, _, _, _⟩ :: fields =>
    if names.any Name.isVisible then max x.height (heightOfMethods fields)
    else heightOfMethods fields

/-- The height of the highest parameter; a pointer stands for what it points to. -/
def heightOfParams : List Field → Nat
  | [] => 0
  | ⟨_, .pointer x, _, _, _⟩ :: fields => max x.height (heightOfParams fields)
  | ⟨_, x, _, _, _⟩ :: fields => max x.height (heightOfParams fields)

/-- The height of the highest result. The last one does not count if it is an error, unless its field
has another name before it. -/
def heightOfResults : List Field → Nat
  | [] => 0
  | ⟨names, x, _, _, _⟩ :: fields =>
    if fields.isEmpty && x.isNamed "error" && names.length ≤ 1 then 0
    else max x.height (heightOfResults fields)

end

/-- Only a visible field makes a struct higher. -/
theorem heightOfMembers_cons (f : Field) (fields : List Field) :
    heightOfMembers (f :: fields) =
      if f.names.any Name.isVisible then max f.type.deref.height (heightOfMembers fields)
      else heightOfMembers fields := by
  obtain ⟨names, type, doc, comment, tag⟩ := f
  cases type <;> rfl

/-- Only a visible method makes an interface higher. -/
theorem heightOfMethods_cons (f : Field) (fields : List Field) :
    heightOfMethods (f :: fields) =
      if f.names.any Name.isVisible then max f.type.height (heightOfMethods fields)
      else heightOfMethods fields := by
  obtain ⟨names, type, doc, comment, tag⟩ := f
  rfl

/-- Each parameter counts, whatever its name. -/
theorem heightOfParams_cons (f : Field) (fields : List Field) :
    heightOfParams (f :: fields) = max f.type.deref.height (heightOfParams fields) := by
  obtain ⟨names, type, doc, comment, tag⟩ := f
  cases type <;> rfl

/-- A node is written for every type. -/
theorem TypeExpr.height_pos (x : TypeExpr) : 1 ≤ x.height := by
  cases x <;> unfold height <;> first | omega | (split <;> omega)

/-! ## Results -/

/-- The last field alone decides whether the results end in an error. -/
theorem TypeExpr.returned_cons_cons (f g : Field) (fields : List Field) :
    returned (f :: g :: fields) =
      List.replicate (max f.names.length 1) f.type ++ returned (g :: fields) := by
  have later : (g :: fields).flatMap (fun f => List.replicate (max f.names.length 1) f.type) ≠ [] := by
    rw [List.flatMap_cons]
    intro none
    have empty := congrArg List.length none
    rw [List.length_append, List.length_replicate, List.length_nil] at empty
    omega
  have same : endsInError (f :: g :: fields) = endsInError (g :: fields) := by
    rw [endsInError, endsInError, List.getLast?_cons_cons]
  simp only [returned, same]
  rw [List.flatMap_cons]
  split
  · exact List.dropLast_append_of_ne_nil later
  · rfl

theorem TypeExpr.returned_singleton (f : Field) :
    returned [f] =
      List.replicate (max f.names.length 1 - if f.type.isNamed "error" then 1 else 0) f.type := by
  simp only [returned, endsInError, List.flatMap_singleton, List.getLast?_singleton, Option.map_some,
    Option.getD_some]
  split
  · exact List.dropLast_replicate ..
  · rfl

/-- Something holds of a copy if there is one and it holds of the original. -/
theorem exists_mem_replicate_iff {α : Type} {p : α → Prop} {n : Nat} {a : α} :
    (∃ x ∈ List.replicate n a, p x) ↔ n ≠ 0 ∧ p a := by
  constructor
  · rintro ⟨x, mem, px⟩
    obtain ⟨some, rfl⟩ := List.mem_replicate.1 mem
    exact ⟨some, px⟩
  · rintro ⟨some, pa⟩
    exact ⟨a, List.mem_replicate.2 ⟨some, rfl⟩, pa⟩

/-- The height is that of the highest result that is returned. -/
theorem lt_heightOfResults_iff {n : Nat} (results : List Field) :
    n < heightOfResults results ↔ ∃ x ∈ TypeExpr.returned results, n < x.height := by
  induction results with
  | nil => simp [heightOfResults, TypeExpr.returned, endsInError]
  | cons f fields ih =>
    obtain ⟨names, type, doc, comment, tag⟩ := f
    rw [heightOfResults]
    cases fields with
    | nil =>
      rw [TypeExpr.returned_singleton, exists_mem_replicate_iff, List.isEmpty_nil, heightOfResults]
      dsimp only
      by_cases error : type.isNamed "error" = true
      · by_cases one : names.length ≤ 1
        · simp [error, one]
        · simp [error, one]
          omega
      · simp [error]
    | cons g fields =>
      rw [TypeExpr.returned_cons_cons]
      simp only [List.mem_append, or_and_right, exists_or, exists_mem_replicate_iff, ← ih,
        List.isEmpty_cons, Bool.false_and, Bool.false_eq_true, if_false, lt_max_iff]
      have some : max names.length 1 ≠ 0 := by omega
      simp [some]

/-! ## What is cut -/

/-- Some type is reported as too deep. -/
def TooDeep (issues : List Issue) : Prop := ∃ limit, Issue.tooDeep limit ∈ issues

theorem tooDeep_append {xs ys : List Issue} : TooDeep (xs ++ ys) ↔ TooDeep xs ∨ TooDeep ys := by
  simp only [TooDeep, List.mem_append, exists_or]

theorem tooDeep_flatMap {α : Type} {f : α → List Issue} {xs : List α} :
    TooDeep (xs.flatMap f) ↔ ∃ x ∈ xs, TooDeep (f x) := by
  simp only [TooDeep, List.mem_flatMap]
  constructor
  · rintro ⟨limit, x, mem, deep⟩
    exact ⟨x, mem, limit, deep⟩
  · rintro ⟨x, mem, limit, deep⟩
    exact ⟨limit, x, mem, deep⟩

theorem not_tooDeep_nil : ¬TooDeep [] := fun ⟨_, mem⟩ => List.not_mem_nil mem

/-- The array around more than one result has no issue of its own. -/
theorem issues_ofResults (xs : List TsType) :
    (TsType.ofResults xs).issues = xs.flatMap TsType.issues := by
  match xs with
  | [] => rfl
  | [x] => exact (List.append_nil _).symm
  | x :: y :: xs => exact issuesOfTypes_eq_flatMap (x :: y :: xs)

namespace Context

/-- A name is never too deep. -/
theorem not_tooDeep_ofName (ctx : Context) (name : String) : ¬TooDeep (ctx.ofName name).issues := by
  unfold ofName
  split
  · exact not_tooDeep_nil
  · split
    · exact not_tooDeep_nil
    · simp [TooDeep, TsType.issues]

/-- A name of a package is never too deep. -/
theorem not_tooDeep_ofSelector (ctx : Context) (x : TypeExpr) (sel : String) :
    ¬TooDeep (ctx.ofSelector x sel).issues := by
  unfold ofSelector
  split
  · exact not_tooDeep_nil
  · split
    · exact not_tooDeep_nil
    · simp [TooDeep, TsType.issues]

end Context

section cuts

variable {ctx : Context} {room : Nat}

/-- With so much room, a type is cut somewhere exactly if it is higher than that. -/
def CutsHigher (ctx : Context) (room : Nat) : Prop :=
  ∀ slot x, TooDeep (TsType.ofExpr ctx room slot x).issues ↔ room < x.height

namespace CutsHigher

/-- Types are too deep exactly if one is higher than the room. -/
theorem types (cuts : CutsHigher ctx room) (xs : List TypeExpr) :
    TooDeep (issuesOfTypes (typesOf ctx room xs)) ↔ room < heightOfTypes xs := by
  induction xs with
  | nil => exact iff_of_false not_tooDeep_nil (Nat.not_lt_zero room)
  | cons x xs ih => rw [typesOf, issuesOfTypes, heightOfTypes, tooDeep_append, cuts, ih, lt_max_iff]

/-- A field is too deep if it is visible and its type too deep. -/
theorem ofField {style : NameStyle} {f : Field} {optional colon : Bool} {type : TsType} :
    TooDeep ((TsMember.ofField style f optional colon type).flatMap fun m => m.type.issues) ↔
      f.names.any Name.isVisible = true ∧ TooDeep type.issues := by
  rw [tooDeep_flatMap, List.any_eq_true]
  constructor
  · rintro ⟨m, mem, deep⟩
    obtain ⟨name, among, rfl⟩ := List.mem_map.1 mem
    exact ⟨⟨name, List.mem_filter.1 among⟩, deep⟩
  · rintro ⟨⟨name, visible⟩, deep⟩
    exact ⟨_, List.mem_map_of_mem (List.mem_filter.2 visible), deep⟩

/-- The members of a struct are too deep exactly if the struct is higher than the room. -/
theorem members (cuts : CutsHigher ctx room) (fields : List Field) :
    TooDeep (issuesOfMembers (structMembers ctx room fields)) ↔ room < heightOfMembers fields := by
  rw [issuesOfMembers_eq_flatMap]
  induction fields with
  | nil => exact iff_of_false not_tooDeep_nil (Nat.not_lt_zero room)
  | cons f fields ih =>
    rw [structMembers_cons, List.flatMap_append, tooDeep_append, ofField, ih, cuts,
      heightOfMembers_cons]
    by_cases visible : f.names.any Name.isVisible = true
    · rw [if_pos visible, lt_max_iff, and_iff_right visible]
    · rw [if_neg visible]
      exact or_iff_right fun shown => visible shown.1

/-- The methods of an interface are too deep exactly if it is higher than the room. -/
theorem methods (cuts : CutsHigher ctx room) (fields : List Field) :
    TooDeep (issuesOfMembers (interfaceMembers ctx room fields)) ↔
      room < heightOfMethods fields := by
  rw [issuesOfMembers_eq_flatMap]
  induction fields with
  | nil => exact iff_of_false not_tooDeep_nil (Nat.not_lt_zero room)
  | cons f fields ih =>
    rw [interfaceMembers_cons, List.flatMap_append, tooDeep_append, ofField, ih, cuts,
      heightOfMethods_cons]
    by_cases visible : f.names.any Name.isVisible = true
    · rw [if_pos visible, lt_max_iff, and_iff_right visible]
    · rw [if_neg visible]
      exact or_iff_right fun shown => visible shown.1

/-- Parameters are too deep exactly if one is higher than the room. -/
theorem params (cuts : CutsHigher ctx room) (i : Nat) (fields : List Field) :
    TooDeep ((paramsFrom ctx room i fields).flatMap fun p => p.type.issues) ↔
      room < heightOfParams fields := by
  induction fields generalizing i with
  | nil => exact iff_of_false not_tooDeep_nil (Nat.not_lt_zero room)
  | cons f fields ih =>
    have one : TooDeep ((TsParam.ofField i f (.ofExpr ctx room .part f.type.deref)).flatMap
        fun p => p.type.issues) ↔ room < f.type.deref.height := by
      rw [tooDeep_flatMap, ← cuts .part]
      constructor
      · rintro ⟨p, mem, deep⟩
        obtain ⟨name, -, rfl⟩ := List.mem_map.1 mem
        exact deep
      · intro deep
        obtain ⟨p, mem⟩ := List.exists_mem_of_ne_nil _ (TsParam.ofField_ne_nil i f _)
        obtain ⟨name, -, rfl⟩ := List.mem_map.1 mem
        exact ⟨_, mem, deep⟩
    rw [paramsFrom_cons, List.flatMap_append, tooDeep_append, one, ih, heightOfParams_cons, lt_max_iff]

/-- Results are too deep exactly if one that is returned is higher than the room. -/
theorem results (cuts : CutsHigher ctx room) (fields : List Field) :
    TooDeep ((withoutError fields (resultsOf ctx room fields)).flatMap TsType.issues) ↔
      room < heightOfResults fields := by
  rw [withoutError_resultsOf, tooDeep_flatMap, lt_heightOfResults_iff]
  constructor
  · rintro ⟨t, mem, deep⟩
    obtain ⟨x, among, rfl⟩ := List.mem_map.1 mem
    exact ⟨x, among, (cuts .result x).1 deep⟩
  · rintro ⟨x, among, higher⟩
    exact ⟨_, List.mem_map_of_mem among, (cuts .result x).2 higher⟩

end CutsHigher

/-- A type is cut exactly if it is higher than the room for it. The induction is on the room, of which
every part has one level less. -/
theorem cutsHigher (ctx : Context) (room : Nat) : CutsHigher ctx room := by
  induction room with
  | zero =>
    intro slot x
    refine iff_of_true ?_ x.height_pos
    rw [TsType.ofExpr]
    exact ⟨_, List.mem_singleton_self _⟩
  | succ room cuts =>
    intro slot x
    cases x with
    | pointer x => rw [TsType.ofExpr, Writing.issues_pointerTo, cuts, TypeExpr.height, Nat.succ_lt_succ_iff]
    | variadic elt =>
      rw [TsType.ofExpr, TypeExpr.height]
      split
      · exact iff_of_false not_tooDeep_nil (by omega)
      · rw [TsType.issues, Writing.issues_parenIf, cuts, Nat.succ_lt_succ_iff]
    | array elt length =>
      rw [TsType.ofExpr, TypeExpr.height, Nat.succ_lt_succ_iff, ← cuts .part]
      split <;> exact Iff.rfl
    | struct fields =>
      rw [TsType.ofExpr, TsType.issues, cuts.members, TypeExpr.height, Nat.succ_lt_succ_iff]
    | interface methods =>
      rw [TsType.ofExpr, TsType.issues, cuts.methods, TypeExpr.height, Nat.succ_lt_succ_iff]
    | paren x => rw [TsType.ofExpr, TsType.issues, cuts, TypeExpr.height, Nat.succ_lt_succ_iff]
    | binary x op y =>
      rw [TsType.ofExpr, TsType.issues, tooDeep_append, cuts, cuts, TypeExpr.height,
        Nat.succ_lt_succ_iff, lt_max_iff]
    | func params results typeParams =>
      rw [TsType.ofExpr, Writing.issues_ofFunc, tooDeep_append, issues_ofResults, cuts.params,
        cuts.results, TypeExpr.height, Nat.succ_lt_succ_iff, lt_max_iff]
    | unary op x =>
      rw [TsType.ofExpr, TypeExpr.height]
      split
      · rw [cuts, Nat.succ_lt_succ_iff]
      · exact iff_of_false (by simp [TooDeep, TsType.issues]) (by omega)
    | generic x args =>
      rw [TsType.ofExpr, TsType.issues, tooDeep_append, cuts, cuts.types, TypeExpr.height,
        Nat.succ_lt_succ_iff, lt_max_iff]
    | name name =>
      have leaf : ¬room + 1 < 1 := by omega
      exact iff_of_false (ctx.not_tooDeep_ofName name) leaf
    | selector x sel =>
      have leaf : ¬room + 1 < 1 := by omega
      exact iff_of_false (ctx.not_tooDeep_ofSelector x sel) leaf
    | map | literal | counted | call | channel | composite | unknown =>
      have leaf : ¬room + 1 < 1 := by omega
      exact iff_of_false not_tooDeep_nil leaf

end cuts

/-! ## What fits -/

/-- The context with another limit on the levels. -/
def Context.limited (ctx : Context) (limit : Int) : Context :=
  { ctx with config := { ctx.config with maxDepth := limit } }

section fits

variable {ctx : Context} {limit limit' : Int} {room room' : Nat}

/-- What is no higher than the first room is rendered with it as with the second one, under whatever
limits. -/
def FitsAlike (ctx : Context) (limit limit' : Int) (room room' : Nat) : Prop :=
  ∀ slot x, x.height ≤ room →
    TsType.ofExpr (ctx.limited limit) room slot x = .ofExpr (ctx.limited limit') room' slot x

namespace FitsAlike

theorem types (alike : FitsAlike ctx limit limit' room room') (xs : List TypeExpr)
    (fits : heightOfTypes xs ≤ room) :
    typesOf (ctx.limited limit) room xs = typesOf (ctx.limited limit') room' xs := by
  induction xs with
  | nil => rfl
  | cons x xs ih =>
    obtain ⟨first, others⟩ := max_le_iff.1 fits
    rw [typesOf, typesOf, alike .part x first, ih others]

theorem ofField {style : NameStyle} {f : Field} {optional colon : Bool} {type type' : TsType}
    (alike : f.names.any Name.isVisible = true → type = type') :
    TsMember.ofField style f optional colon type = TsMember.ofField style f optional colon type' := by
  refine List.map_congr_left fun name mem => ?_
  rw [alike (List.any_eq_true.2 ⟨name, List.mem_filter.1 mem⟩)]

theorem members (alike : FitsAlike ctx limit limit' room room') (fields : List Field)
    (fits : heightOfMembers fields ≤ room) :
    structMembers (ctx.limited limit) room fields = structMembers (ctx.limited limit') room' fields := by
  induction fields with
  | nil => rfl
  | cons f fields ih =>
    rw [heightOfMembers_cons] at fits
    rw [structMembers_cons, structMembers_cons]
    by_cases visible : f.names.any Name.isVisible = true
    · rw [if_pos visible] at fits
      obtain ⟨first, others⟩ := max_le_iff.1 fits
      rw [ih others, alike .part _ first]
      rfl
    · rw [if_neg visible] at fits
      rw [ih fits]
      exact congrArg (· ++ _) (ofField fun shown => absurd shown visible)

theorem methods (alike : FitsAlike ctx limit limit' room room') (fields : List Field)
    (fits : heightOfMethods fields ≤ room) :
    interfaceMembers (ctx.limited limit) room fields =
      interfaceMembers (ctx.limited limit') room' fields := by
  induction fields with
  | nil => rfl
  | cons f fields ih =>
    rw [heightOfMethods_cons] at fits
    rw [interfaceMembers_cons, interfaceMembers_cons]
    by_cases visible : f.names.any Name.isVisible = true
    · rw [if_pos visible] at fits
      obtain ⟨first, others⟩ := max_le_iff.1 fits
      rw [ih others, alike .plain _ first]
      rfl
    · rw [if_neg visible] at fits
      rw [ih fits]
      exact congrArg (· ++ _) (ofField fun shown => absurd shown visible)

theorem params (alike : FitsAlike ctx limit limit' room room') (i : Nat) (fields : List Field)
    (fits : heightOfParams fields ≤ room) :
    paramsFrom (ctx.limited limit) room i fields = paramsFrom (ctx.limited limit') room' i fields := by
  induction fields generalizing i with
  | nil => rfl
  | cons f fields ih =>
    rw [heightOfParams_cons] at fits
    obtain ⟨first, others⟩ := max_le_iff.1 fits
    rw [paramsFrom_cons, paramsFrom_cons, alike .part _ first, ih (i + 1) others]

theorem results (alike : FitsAlike ctx limit limit' room room') (fields : List Field)
    (fits : heightOfResults fields ≤ room) :
    withoutError fields (resultsOf (ctx.limited limit) room fields) =
      withoutError fields (resultsOf (ctx.limited limit') room' fields) := by
  rw [withoutError_resultsOf, withoutError_resultsOf]
  refine List.map_congr_left fun x mem => alike .result x (Nat.not_lt.1 fun higher => ?_)
  exact absurd ((lt_heightOfResults_iff fields).2 ⟨x, mem, higher⟩) (Nat.not_lt.2 fits)

end FitsAlike

/-- More room than the height asks for does not show, and neither does the limit. -/
theorem fitsAlike (ctx : Context) (limit limit' : Int) (more : room ≤ room') :
    FitsAlike ctx limit limit' room room' := by
  induction room generalizing room' with
  | zero => exact fun slot x fits => absurd x.height_pos (by omega)
  | succ room ih =>
    obtain ⟨room', rfl⟩ : ∃ n, room' = n + 1 := ⟨room' - 1, by omega⟩
    have alike : FitsAlike ctx limit limit' room room' := ih (Nat.le_of_succ_le_succ more)
    intro slot x fits
    cases x with
    | pointer x =>
      rw [TypeExpr.height, Nat.succ_le_succ_iff] at fits
      rw [TsType.ofExpr, TsType.ofExpr, alike _ _ fits]
    | variadic elt =>
      rw [TypeExpr.height] at fits
      rw [TsType.ofExpr, TsType.ofExpr]
      by_cases bytes : elt.isNamed "byte" = true
      · rw [if_pos bytes, if_pos bytes]
      · rw [if_neg bytes, Nat.succ_le_succ_iff] at fits
        rw [if_neg bytes, if_neg bytes, alike _ _ fits]
    | array elt length =>
      rw [TypeExpr.height, Nat.succ_le_succ_iff] at fits
      rw [TsType.ofExpr, TsType.ofExpr, alike _ _ fits]
    | struct fields =>
      rw [TypeExpr.height, Nat.succ_le_succ_iff] at fits
      rw [TsType.ofExpr, TsType.ofExpr, alike.members _ fits]
    | interface methods =>
      rw [TypeExpr.height, Nat.succ_le_succ_iff] at fits
      rw [TsType.ofExpr, TsType.ofExpr, alike.methods _ fits]
    | paren x =>
      rw [TypeExpr.height, Nat.succ_le_succ_iff] at fits
      rw [TsType.ofExpr, TsType.ofExpr, alike _ _ fits]
    | binary x op y =>
      rw [TypeExpr.height, Nat.succ_le_succ_iff, max_le_iff] at fits
      rw [TsType.ofExpr, TsType.ofExpr, alike _ _ fits.1, alike _ _ fits.2]
    | func params results typeParams =>
      rw [TypeExpr.height, Nat.succ_le_succ_iff, max_le_iff] at fits
      rw [TsType.ofExpr, TsType.ofExpr, alike.params 0 _ fits.1, alike.results _ fits.2]
    | unary op x =>
      rw [TypeExpr.height] at fits
      rw [TsType.ofExpr, TsType.ofExpr]
      by_cases tilde : op = "~"
      · rw [if_pos tilde, Nat.succ_le_succ_iff] at fits
        rw [if_pos tilde, if_pos tilde, alike _ _ fits]
      · rw [if_neg tilde, if_neg tilde]
    | generic x args =>
      rw [TypeExpr.height, Nat.succ_le_succ_iff, max_le_iff] at fits
      rw [TsType.ofExpr, TsType.ofExpr, alike _ _ fits.1, alike.types _ fits.2]
    | name | selector | map | literal | counted | call | channel | composite | unknown => rfl

end fits

/-! ## Limits -/

/-- Only a type that is too deep is reported as such. -/
theorem Issue.category_warning? {issue : Issue} {w : Warning} (warns : issue.warning? = some w) :
    w.category = "depth" ↔ ∃ limit, issue = .tooDeep limit := by
  cases issue with
  | unresolved name => cases warns
  | tooDeep limit =>
    cases warns
    exact iff_of_true rfl ⟨limit, rfl⟩
  | strayOperator op =>
    cases warns
    exact iff_of_false (show "unary" ≠ "depth" by decide) fun ⟨_, same⟩ => nomatch same

/-- The warnings about depth are those of issues about depth. -/
theorem exists_depth_warning_iff (issues : List Issue) :
    (∃ w ∈ issues.filterMap Issue.warning?, w.category = "depth") ↔ TooDeep issues := by
  constructor
  · rintro ⟨w, mem, depth⟩
    obtain ⟨issue, among, warns⟩ := List.mem_filterMap.1 mem
    obtain ⟨limit, rfl⟩ := (Issue.category_warning? warns).1 depth
    exact ⟨limit, among⟩
  · rintro ⟨limit, among⟩
    exact ⟨_, List.mem_filterMap.2 ⟨_, among, rfl⟩, rfl⟩

namespace Session

/-- The session with another limit on the levels. -/
def limited (s : Session) (limit : Int) : Session := { s with context := s.context.limited limit }

/-- The limit is exact, and does not show otherwise. Whatever was noted before, a type is reported as
too deep exactly if it is higher than the limit. If it is not, neither its text nor what is noted
depends on the limit. And an emitter that writes it is behind it inside of as many types as before
it. -/
theorem type_limited (s : Session) (depth : Int) (slot : Slot) (x : TypeExpr) (limit : Int) :
    1 ≤ x.height
    ∧ (∃ warnings, ((s.limited limit).type depth slot x).2.noted.warnings =
          s.noted.warnings ++ warnings
        ∧ ((∃ w ∈ warnings, w.category = "depth") ↔ limit < x.height))
    ∧ (x.height ≤ limit → ∀ limit', limit ≤ limit' →
        ((s.limited limit').type depth slot x).1 = ((s.limited limit).type depth slot x).1
        ∧ ((s.limited limit').type depth slot x).2.noted =
          ((s.limited limit).type depth slot x).2.noted)
    ∧ Writing.type depth slot x { toSession := s.limited limit } =
        (((s.limited limit).type depth slot x).1,
          { toSession := ((s.limited limit).type depth slot x).2 })
    ∧ ∀ level,
        (Writing.type depth slot x { toSession := s.limited limit, level := level }).2.level =
          level := by
  refine ⟨x.height_pos, ⟨_, rfl, ?_⟩, fun fits limit' more => ?_, ?_, fun level => ?_⟩
  · rw [exists_depth_warning_iff, cutsHigher]
    have room : (s.limited limit).context.room = limit.toNat := rfl
    have height := x.height_pos
    omega
  · have rooms : limit.toNat ≤ limit'.toNat := by omega
    have same := fitsAlike s.context limit limit' rooms slot x (by omega)
    have rendered : TsType.ofExpr (s.limited limit').context (s.limited limit').context.room slot x =
        .ofExpr (s.limited limit).context (s.limited limit).context.room slot x := same.symm
    simp only [type, rendered]
    exact ⟨rfl, rfl⟩
  · have written := Writing.writesTypes (s.limited limit).context 0 _ rfl depth slot x
    rw [written { toSession := s.limited limit } rfl rfl, Int.sub_zero]
    rfl
  · have written := Writing.writesTypes (s.limited limit).context level _ rfl depth slot x
    rw [written { toSession := s.limited limit, level := level } rfl rfl]
    rfl

/-- An array of arrays takes three levels: with more of them it is written as with three, and with two
its innermost part is cut. -/
theorem type_limited_nested_array :
    let x : TypeExpr := .array (.array (.name "string") none) none
    let s := ofConfig {}
    (x.height : Int) ≤ 3 ∧ ((s.limited 2).type 0 .plain x).1 = "Array<Array<any>>"
      ∧ ((s.limited 7).type 0 .plain x).1 = ((s.limited 3).type 0 .plain x).1 := by
  intro x s
  have fits : (x.height : Int) ≤ 3 := by decide
  exact ⟨fits, by decide, ((type_limited s 0 .plain x 3).2.2.1 fits 7 (by decide)).1⟩

end Session

end Typings
