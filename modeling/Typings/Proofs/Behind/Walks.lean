import Typings.Proofs.Behind.Gaps
import Typings.Proofs.Joined.Endings

/-!
# Where comments are claimed

A parser walks over the tokens and stops here and there to claim the comment behind the token just
passed; between two stops it passes a token (`Cursor.Walks`). So what it finds at a stop does not depend
on what was claimed before (`Cursor.Walks.find?_trailing`): no comment is between two pairs of tokens.

`Parser.Visits` says of a parser that the members in what it gives have each been read by the production
for it, up to one of these stops, where their comments come from.
-/

namespace Typings

/-! ## Members -/

/-- What a comment in a file may stand behind: a struct field, an element of an interface, or a type
specification. -/
inductive Notable where
  | field (f : Field)
  | element (f : Field)
  | typeSpec (spec : TypeSpec)

/-- The comment behind a member. -/
def Notable.comment : Notable → Option CommentGroup
  | .field f | .element f => f.comment
  | .typeSpec spec => spec.comment

mutual

/-- The members in a type, in the order in which they end. -/
def TypeExpr.notables : TypeExpr → List Notable
  | .name _ | .literal _ _ | .counted _ | .unknown => []
  | .selector x _ | .pointer x | .variadic x | .paren x | .unary _ x | .channel _ x => x.notables
  | .array elt none => elt.notables
  | .array elt (some length) => length.notables ++ elt.notables
  | .map key value => key.notables ++ value.notables
  | .func params results typeParams =>
    notablesOfFields (fun _ => []) typeParams ++ notablesOfFields (fun _ => []) params ++
      notablesOfFields (fun _ => []) results
  | .struct fields => notablesOfFields (fun f => [.field f]) fields
  | .interface fields => notablesOfFields (fun f => [.element f]) fields
  | .generic x args | .call x args => x.notables ++ notablesOfTypes args
  | .binary x _ y => x.notables ++ y.notables
  | .composite none elts => notablesOfTypes elts
  | .composite (some type) elts => type.notables ++ notablesOfTypes elts

/-- The members in types. -/
def notablesOfTypes : List TypeExpr → List Notable
  | [] => []
  | x :: xs => x.notables ++ notablesOfTypes xs

/-- The members in the types of fields, and those that the fields themselves are. -/
def notablesOfFields (as : Field → List Notable) : List Field → List Notable
  | [] => []
  | ⟨names, type, doc, comment, tag⟩ :: fields =>
    type.notables ++ as ⟨names, type, doc, comment, tag⟩ ++ notablesOfFields as fields

end

/-- The members in a type specification, and itself. -/
def TypeSpec.notables (spec : TypeSpec) : List Notable :=
  notablesOfFields (fun _ => []) spec.typeParams ++ spec.type.notables ++ [.typeSpec spec]

/-- The members in a function. -/
def FuncDecl.notables (decl : FuncDecl) : List Notable :=
  notablesOfFields (fun _ => []) decl.recv.toList ++ decl.type.notables

/-- The members in a declaration. -/
def Decl.notables : Decl → List Notable
  | .typeSpec spec => spec.notables
  | .func decl => decl.notables
  | .unknown => []

/-- The members in a file. -/
def File.notables (file : File) : List Notable := file.decls.flatMap Decl.notables

theorem notablesOfTypes_eq_flatMap (xs : List TypeExpr) :
    notablesOfTypes xs = xs.flatMap TypeExpr.notables := by
  induction xs with
  | nil => rfl
  | cons x xs ih => rw [notablesOfTypes, ih, List.flatMap_cons]

theorem notablesOfFields_eq_flatMap (as : Field → List Notable) (fs : List Field) :
    notablesOfFields as fs = fs.flatMap fun f => f.type.notables ++ as f := by
  induction fs with
  | nil => rw [notablesOfFields, List.flatMap_nil]
  | cons f fs ih =>
    obtain ⟨names, type, doc, comment, tag⟩ := f
    rw [notablesOfFields, ih, List.flatMap_cons]

/-! ## Places -/

/-- A comment between two tokens is not between others further on. -/
theorem Cursor.not_trails_of_trails {s s' : Cursor} {ts : List Token} {m : Comment}
    (order : (s.passed.reverse ++ s.rest).Pairwise fun t u => t.pos.Precedes u.pos)
    (started : s.passed ≠ []) (rest : s.rest = ts ++ s'.rest) (passed : s'.passed = ts.reverse ++ s.passed)
    (some : ts ≠ []) (trails : s.trails m = true) : ¬s'.trails m = true := by
  obtain ⟨t, ps, before⟩ := List.exists_cons_of_ne_nil started
  obtain ⟨u, us, rfl⟩ := List.exists_cons_of_ne_nil some
  obtain ⟨-, ahead, across⟩ := List.pairwise_append.1 order
  have prev : s.prev = t := by rw [Cursor.prev, before]; rfl
  have current : s.current = u := by rw [Cursor.current, rest]; rfl
  -- the token before the later place is the one at the earlier place, or stands behind it
  have later : s'.prev = u ∨ u.pos.Precedes s'.prev.pos := by
    rcases List.eq_nil_or_concat us with rfl | ⟨vs, v, rfl⟩
    · left
      rw [Cursor.prev, passed]
      rfl
    · right
      have here : s'.prev = v := by
        rw [Cursor.prev, passed, List.concat_eq_append, ← List.cons_append, List.reverse_append]
        rfl
      rw [rest, List.cons_append, List.concat_eq_append] at ahead
      rw [here]
      exact (List.pairwise_cons.1 ahead).1 v (by simp)
  have on : t.pos.Precedes u.pos := by
    refine across t ?_ u ?_
    · rw [before]
      simp
    · rw [rest]
      exact List.mem_cons_self
  intro trails'
  obtain ⟨line, col, next⟩ := Layout.trails_iff.1 trails
  obtain ⟨line', col', -⟩ := Layout.trails_iff.1 trails'
  rw [prev] at line col next
  rw [current] at next
  unfold Position.Precedes at on
  rcases later with same | after
  · rw [same] at line' col'
    omega
  · unfold Position.Precedes at after
    omega

theorem Cursor.tokens_pass (c : Cursor) (n : Nat) :
    (c.pass n).passed.reverse ++ (c.pass n).rest = c.passed.reverse ++ c.rest := by
  rw [pass, List.reverse_append, List.reverse_reverse, List.append_assoc, List.take_append_drop]

theorem find?_eraseP {α : Type} {p q : α → Bool} (other : ∀ x, p x = true → ¬q x = true) (xs : List α) :
    (xs.eraseP p).find? q = xs.find? q := by
  induction xs with
  | nil => rfl
  | cons x xs ih =>
    by_cases here : p x = true
    · rw [List.eraseP_cons_of_pos here, List.find?_cons_of_neg (other x here)]
    · rw [List.eraseP_cons_of_neg here, List.find?_cons, List.find?_cons, ih]

/-! ## Walks -/

namespace Cursor

/-- A walk from one cursor to another, and the stops at which a comment is claimed. A walk is firm at a
place if a token has been passed since the last claim: only there may it stop. -/
inductive Walks : Bool → Cursor → List Cursor → Bool → Cursor → Prop
  | stay (firm : Bool) (c : Cursor) : Walks firm c [] firm c
  | loosen {firm' : Bool} {c c' : Cursor} {stops : List Cursor}
      (rest : Walks false c stops firm' c') : Walks true c stops firm' c'
  | pass {firm firm' : Bool} {c c' : Cursor} {stops : List Cursor} (n : Nat)
      (rest : Walks firm (c.pass n) stops firm' c') : Walks firm c stops firm' c'
  | step {firm firm' : Bool} {c c' : Cursor} {stops : List Cursor} (some : c.rest ≠ [])
      (rest : Walks true c.advance stops firm' c') : Walks firm c stops firm' c'
  | claim {firm' : Bool} {c c' : Cursor} {stops : List Cursor}
      (rest : Walks false c.dropCommentBehind stops firm' c') : Walks true c (c :: stops) firm' c'

namespace Walks

variable {firm firm' firm'' : Bool} {c c' c'' : Cursor} {stops stops' : List Cursor}

theorem trans (h : Walks firm c stops firm' c') (k : Walks firm' c' stops' firm'' c'') :
    Walks firm c (stops ++ stops') firm'' c'' := by
  induction h with
  | stay => exact k
  | loosen _ ih => exact (ih k).loosen
  | pass n _ ih => exact (ih k).pass n
  | step some _ ih => exact (ih k).step some
  | claim _ ih => exact (ih k).claim

theorem any (h : Walks false c stops firm' c') : Walks firm c stops firm' c' := by
  cases firm with
  | false => exact h
  | true => exact h.loosen

/-- What has been passed between the cursor and a stop. -/
theorem tokens_of_mem (h : Walks firm c stops firm' c') {s : Cursor} (mem : s ∈ stops) :
    ∃ ts, c.rest = ts ++ s.rest ∧ s.passed = ts.reverse ++ c.passed ∧ s.stop = c.stop ∧
      s.own = c.own ∧ (firm = false → ts ≠ []) := by
  induction h with
  | stay => cases mem
  | loosen _ ih =>
    obtain ⟨ts, rest, passed, stop, own, -⟩ := ih mem
    exact ⟨ts, rest, passed, stop, own, fun same => by cases same⟩
  | @pass firm firm' c c' stops n _ ih =>
    obtain ⟨ts, rest, passed, stop, own, some⟩ := ih mem
    refine ⟨c.rest.take n ++ ts, ?_, ?_, stop, own, fun loose => ?_⟩
    · rw [List.append_assoc, ← rest]
      exact (List.take_append_drop n c.rest).symm
    · rw [passed, List.reverse_append, List.append_assoc]
      rfl
    · exact List.append_ne_nil_of_right_ne_nil _ (some loose)
  | @step firm firm' c c' stops some _ ih =>
    obtain ⟨ts, rest, passed, stop, own, -⟩ := ih mem
    obtain ⟨u, us, tokens⟩ := List.exists_cons_of_ne_nil some
    rw [advance, Cursor.pass, tokens] at rest passed
    refine ⟨u :: ts, ?_, ?_, stop, own, fun _ => List.cons_ne_nil _ _⟩
    · rw [tokens, List.cons_append, ← rest]
      rfl
    · rw [passed, List.reverse_cons, List.append_assoc]
      rfl
  | claim _ ih =>
    rcases List.mem_cons.1 mem with rfl | behind
    · exact ⟨[], rfl, rfl, rfl, rfl, fun loose => by cases loose⟩
    · obtain ⟨ts, rest, passed, stop, own, some⟩ := ih behind
      exact ⟨ts, rest, passed, stop, own, fun loose => by cases loose⟩

/-- Between two stops, a token is passed. -/
theorem pairwise (h : Walks firm c stops firm' c') :
    stops.Pairwise fun s s' => s.passed.length < s'.passed.length := by
  induction h with
  | stay => exact .nil
  | loosen _ ih => exact ih
  | pass _ _ ih => exact ih
  | step _ _ ih => exact ih
  | claim rest ih =>
    refine List.pairwise_cons.2 ⟨fun s mem => ?_, ih⟩
    obtain ⟨ts, -, passed, -, -, some⟩ := rest.tokens_of_mem mem
    rw [passed, List.length_append, List.length_reverse]
    exact Nat.lt_add_of_pos_left (List.length_pos_iff.2 (some rfl))

/-- A claim takes nothing away that is found further on. -/
theorem find?_trailing (h : Walks firm c stops firm' c') (started : firm = true → c.passed ≠ [])
    (order : (c.passed.reverse ++ c.rest).Pairwise fun t u => t.pos.Precedes u.pos) {s : Cursor}
    (mem : s ∈ stops) : s.trailing.find? s.trails = c.trailing.find? s.trails := by
  induction h with
  | stay => cases mem
  | loosen _ ih => exact ih (fun firm => by cases firm) order mem
  | @pass firm firm' c c' stops n _ ih =>
    refine ih (fun firm => List.append_ne_nil_of_right_ne_nil _ (started firm)) ?_ mem
    rw [tokens_pass]
    exact order
  | @step firm firm' c c' stops some _ ih =>
    refine ih (fun _ => ?_) ?_ mem
    · obtain ⟨u, us, rest⟩ := List.exists_cons_of_ne_nil some
      rw [advance, Cursor.pass, rest]
      exact List.cons_ne_nil _ _
    · rw [advance, tokens_pass]
      exact order
  | @claim firm' c c' stops rest ih =>
    rcases List.mem_cons.1 mem with rfl | behind
    · rfl
    · obtain ⟨ts, tokens, passed, -, -, some⟩ := rest.tokens_of_mem behind
      rw [ih (fun firm => by cases firm) order behind]
      refine find?_eraseP (fun m trails => ?_) _
      exact not_trails_of_trails order (started rfl) tokens passed (some rfl) trails

end Walks

end Cursor

end Typings
