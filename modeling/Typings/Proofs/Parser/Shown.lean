import Typings.Proofs.Parser.Steps
import Typings.TypeExpr.Parser

/-!
# Values of which the same shows

What shows of the values that parsers put together is told from what shows of their parts: of lists, of
operands that are grouped, and of the fields that entries of a list become (`fieldsOf_congr`).
-/

namespace Typings.Parser

/-- What shows of lists, item by item. -/
theorem map_cons_congr {α γ : Type} {see : α → γ} {x y : α} {xs ys : List α} (here : see y = see x)
    (behind : ys.map see = xs.map see) : (y :: ys).map see = (x :: xs).map see := by
  rw [List.map_cons, List.map_cons, here, behind]

/-- Operands that are grouped to the left. -/
theorem foldl_binary_congr {γ : Type} {see : TypeExpr → γ} {more more' : List (String × TypeExpr)}
    (binary : ∀ {x x' y y' : TypeExpr} (op : String), see x' = see x → see y' = see y →
      see (.binary x' op y') = see (.binary x op y))
    (shows : more'.map (Prod.map id see) = more.map (Prod.map id see)) {x x' : TypeExpr}
    (first : see x' = see x) :
    see (more'.foldl (fun x (op, y) => .binary x op y) x') =
      see (more.foldl (fun x (op, y) => .binary x op y) x) := by
  induction more generalizing more' x x' with
  | nil =>
    rw [List.map_eq_nil_iff.1 shows]
    exact first
  | cons operand more ih =>
    cases more' with
    | nil => cases shows
    | cons operand' more' =>
      obtain ⟨op, y⟩ := operand
      obtain ⟨op', y'⟩ := operand'
      obtain ⟨here, behind⟩ := List.cons_eq_cons.1 shows
      obtain ⟨rfl, second⟩ : op' = op ∧ see y' = see y := Prod.ext_iff.1 here
      exact ih behind (binary _ first second)

/-! ## Fields of a list -/

/-- Entries that are seen by some function become fields that are seen by another: names stay as they
are, no type becomes a bare name, and a field is seen as its entry. -/
structure EntriesShow (seeEntry : Entry → Entry) (seeField : Field → Field) : Prop where
  name : ∀ e, (seeEntry e).name = e.name
  type : ∀ e n, (seeEntry e).type = .name n ↔ e.type = .name n
  field : ∀ names e, seeField { names := names, type := e.type, comment := e.comment } =
    { names := names, type := (seeEntry e).type, comment := (seeEntry e).comment }

section entries

variable {seeEntry : Entry → Entry} {seeField : Field → Field}

theorem groupNames_named {e : Entry} {name : String} (here : e.name = some name)
    (pending : List String) (es : List Entry) :
    groupNames pending (e :: es) = (groupNames [] es).map fun fields =>
      { names := pending ++ [name], type := e.type, comment := e.comment } :: fields := by
  rw [groupNames, here]
  cases groupNames [] es <;> rfl

theorem groupNames_bare {e : Entry} {name : String} (here : e.name = none) (bare : e.type = .name name)
    (pending : List String) (es : List Entry) :
    groupNames pending (e :: es) = groupNames (pending ++ [name]) es := by
  rw [groupNames, here, bare]

theorem groupNames_unnamed {e : Entry} (here : e.name = none) (other : ∀ name, e.type ≠ .name name)
    (pending : List String) (es : List Entry) : groupNames pending (e :: es) = .error .mixedNames := by
  rw [groupNames, here]
  split
  · next same => cases same
  · next same => exact absurd same (other _)
  · rfl

theorem groupNames_map (shows : EntriesShow seeEntry seeField) (pending : List String)
    (es : List Entry) : groupNames pending (es.map seeEntry) =
      (groupNames pending es).map (List.map seeField) := by
  induction es generalizing pending with
  | nil =>
    rw [List.map_nil, groupNames]
    split <;> rfl
  | cons e es ih =>
    rw [List.map_cons]
    cases here : e.name with
    | some name =>
      rw [groupNames_named here, groupNames_named ((shows.name e).trans here), ih]
      cases groupNames [] es with
      | error cause => rfl
      | ok fields => exact congrArg (fun f => Except.ok (f :: fields.map seeField)) (shows.field _ e).symm
    | none =>
      have here' := (shows.name e).trans here
      by_cases bare : ∃ name, e.type = .name name
      · obtain ⟨name, bare⟩ := bare
        rw [groupNames_bare here bare, groupNames_bare here' ((shows.type e name).2 bare), ih]
      · have other : ∀ name, e.type ≠ .name name := fun name same => bare ⟨name, same⟩
        rw [groupNames_unnamed here other,
          groupNames_unnamed here' fun name same => other name ((shows.type e name).1 same)]
        rfl

/-- What shows of the fields is what shows of their entries. -/
theorem fieldsOf_map (shows : EntriesShow seeEntry seeField) (es : List Entry) :
    fieldsOf (es.map seeEntry) = (fieldsOf es).map (List.map seeField) := by
  have named : ((es.map seeEntry).any fun e => e.name.isSome) = es.any fun e => e.name.isSome := by
    rw [List.any_map]
    exact congrArg (es.any ·) (funext fun e => congrArg Option.isSome (shows.name e))
  rw [fieldsOf, fieldsOf, named, groupNames_map shows, List.map_map]
  split
  · rfl
  · rw [Except.map, List.map_map]
    refine congrArg (fun f => Except.ok (es.map f)) (funext fun e => ?_)
    exact (shows.field [] e).symm

/-- Entries of which the same shows become fields of which the same shows, or are refused alike. -/
theorem fieldsOf_congr (shows : EntriesShow seeEntry seeField) {es es' : List Entry}
    (same : es'.map seeEntry = es.map seeEntry) :
    (∃ fs fs', fieldsOf es = .ok fs ∧ fieldsOf es' = .ok fs' ∧
        fs'.map seeField = fs.map seeField) ∨
      ∃ cause, fieldsOf es = .error cause ∧ fieldsOf es' = .error cause := by
  have fields := congrArg fieldsOf same
  rw [fieldsOf_map shows, fieldsOf_map shows] at fields
  cases first : fieldsOf es with
  | ok fs =>
    cases second : fieldsOf es' with
    | ok fs' =>
      rw [first, second] at fields
      exact .inl ⟨fs, fs', rfl, rfl, Except.ok.inj fields⟩
    | error cause =>
      rw [first, second] at fields
      cases fields
  | error cause =>
    cases second : fieldsOf es' with
    | ok fs' =>
      rw [first, second] at fields
      cases fields
    | error cause' =>
      rw [first, second] at fields
      exact .inr ⟨cause, rfl, congrArg _ (Except.error.inj fields)⟩

end entries

end Typings.Parser
