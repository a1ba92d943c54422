import Mathlib.Data.List.Forall2
import Typings.Proofs.Members.Parts
import Typings.Proofs.Precedence.Grouping
import Typings.Proofs.Precedence.Reading

/-!
# What written types are read as

For each way to write a type, what it is read as, from what its parts are read as. `TsType.Reads`
keeps with it whether that is what was meant: a list of bytes is not, as its `[]` applies to the
last of two operands (`TsType.Reads.listOfBytes`).
-/

namespace Typings

open TsWord

/-! ## Forms that stand for themselves -/

namespace TsForm

/-- The form is the union of its operands. -/
def IsWhole (x : TsForm) : Prop := x.operands ≠ [] ∧ ofOperands x.operands = x

/-- A form that is its only operand is a whole operand list. -/
theorem isWhole_single {x : TsForm} (h : x.operands = [x]) : x.IsWhole := by
  refine ⟨?_, ?_⟩
  · rw [h]
    exact nofun
  · rw [h]
    rfl

/-- The operands of a joined list are those of its parts, and it is whole. -/
theorem operands_ofOperands_append {xs ys : List TsForm} (hx : xs ≠ []) (hy : ys ≠ []) :
    (ofOperands (xs ++ ys)).operands = xs ++ ys ∧ (ofOperands (xs ++ ys)).IsWhole := by
  obtain ⟨x, xs, rfl⟩ := List.exists_cons_of_ne_nil hx
  obtain ⟨y, ys, rfl⟩ := List.exists_cons_of_ne_nil hy
  cases xs with
  | nil => exact ⟨rfl, nofun, rfl⟩
  | cons z zs => exact ⟨rfl, nofun, rfl⟩

section

variable {x y f g : TsForm}

/-- The operands of a union are those of its sides. -/
theorem operands_either (hx : x.IsWhole) (hy : y.IsWhole) :
    (either x y).operands = x.operands ++ y.operands :=
  (operands_ofOperands_append hx.1 hy.1).1

theorem IsWhole.either (hx : x.IsWhole) (hy : y.IsWhole) : (either x y).IsWhole :=
  (operands_ofOperands_append hx.1 hy.1).2

theorem nullable_eq_either (x : TsForm) : nullable x = .either x (.name "undefined") := rfl

theorem isWhole_undefined : (name "undefined").IsWhole := isWhole_single rfl

/-- Forms with the same operands are the same. -/
theorem IsWhole.ext (hx : x.IsWhole) (hy : y.IsWhole) (h : x.operands = y.operands) : x = y := by
  rw [← hx.2, ← hy.2, h]

/-- Unions of whole forms are told by their sides, if the first sides have as many operands. -/
theorem either_inj {x y z w : TsForm} (hx : x.IsWhole) (hy : y.IsWhole) (hz : z.IsWhole)
    (hw : w.IsWhole) (count : x.operands.length = z.operands.length) :
    TsForm.either x y = .either z w ↔ x = z ∧ y = w := by
  constructor
  · intro same
    have operands := congrArg TsForm.operands same
    rw [operands_either hx hy, operands_either hz hw] at operands
    obtain ⟨first, second⟩ := List.append_inj operands count
    exact ⟨hx.ext hz first, hy.ext hw second⟩
  · rintro ⟨rfl, rfl⟩
    rfl

end

end TsForm

/-- What a type is grouped as is a whole operand list. -/
theorem TypeExpr.isWhole_grouping (room : Nat) (returned : Bool) (x : TypeExpr) :
    (x.grouping room returned).IsWhole := by
  induction room generalizing returned x with
  | zero =>
    rw [grouping]
    exact TsForm.isWhole_single rfl
  | succ room ih =>
    cases x with
    | pointer x =>
      rw [grouping]
      split
      · exact ih false x
      · exact (ih false x).either TsForm.isWhole_undefined
    | variadic elt =>
      rw [grouping]
      split <;> exact TsForm.isWhole_single rfl
    | array elt length =>
      rw [grouping]
      split
      · exact ⟨nofun, rfl⟩
      · exact TsForm.isWhole_single rfl
    | paren x => exact ih false x
    | unary op x => exact ih false x
    | binary x op y => exact (ih false x).either (ih false y)
    | _ => exact TsForm.isWhole_single rfl

namespace TsType

open TsForm

/-- The text of the type is read as the phrase. -/
def ReadsAs (indent : String) (t : TsType) (p : TsPhrase) : Prop :=
  ∃ ws, (∀ depth, Gives (t.text indent depth) ws) ∧ TsSpells p ws

/-- The text of the type is read at a level as some form, with as many operands as the one that is
meant, which it is exactly if `ok` says so. -/
def Reads (indent : String) (t : TsType) (level : TsForm → TsPhrase) (meant : TsForm) (ok : Bool) :
    Prop :=
  ∃ f, t.ReadsAs indent (level f) ∧ f.IsWhole ∧ f.operands.length = meant.operands.length ∧
    (f = meant ↔ ok = true)

/-- The operands of a form with bars between them. -/
def unionOf (x : TsForm) : TsPhrase := .union x.operands

end TsType

variable {indent : String}

theorem TsSpells.union_append {xs ys : List TsForm} {ws vs : List TsWord}
    (hx : TsSpells (.union xs) ws) (hy : TsSpells (.union ys) vs) :
    TsSpells (.union (xs ++ ys)) (ws ++ .bar :: vs) := by
  generalize hp : TsPhrase.union xs = p at hx
  induction hx generalizing xs <;> cases hp
  case oneOperand spells _ => exact .moreOperands spells hy
  case moreOperands spells _ _ ih =>
    rw [List.append_assoc, List.append_assoc]
    exact .moreOperands spells (ih rfl)

namespace TsType.Reads

open TsForm

variable {t u : TsType} {f g h : TsForm} {a b : Bool}

/-! ## Types with one part -/

/-- What is read as an operand is read where operands may stand. -/
theorem union (r : t.Reads indent .operand g a) : t.Reads indent unionOf g a := by
  obtain ⟨f, ⟨ws, gives, spells⟩, whole, count, same⟩ := r
  exact ⟨f, ⟨ws, gives, .oneOperand spells⟩, whole, count, same⟩

/-- What is read as an operand or as a union is read where types may stand. -/
theorem type (r : t.Reads indent unionOf g a) : t.Reads indent .type g a := by
  obtain ⟨f, ⟨ws, gives, spells⟩, whole, count, same⟩ := r
  have asType := TsSpells.union spells
  rw [whole.2] at asType
  exact ⟨f, ⟨ws, gives, asType⟩, whole, count, same⟩

theorem name {text : String} (h : ∀ depth, t.text indent depth = text) (isName : IsName text) :
    t.Reads indent .operand (.name text) true := by
  refine ⟨.name text, ⟨[.name text], fun depth => ?_, .name⟩, isWhole_single rfl, rfl, by simp⟩
  rw [h]
  exact isName.gives

/-- Parentheses make an operand of a type. -/
theorem paren (r : t.Reads indent .type g a) : (TsType.paren t).Reads indent .operand g a := by
  obtain ⟨f, ⟨ws, gives, spells⟩, whole, count, same⟩ := r
  refine ⟨f, ⟨.leftParen :: ws ++ [.rightParen], fun depth => ?_, .paren spells⟩, whole, count, same⟩
  have opening : Closes "(" [.leftParen] := fun _ => rfl
  have closing : Closes ")" [.rightParen] := fun _ => rfl
  exact ((gives depth).enclosed opening closing fun _ => .mark rfl).gives

/-- The brackets of `Array` make an operand of a type. -/
theorem array (r : t.Reads indent .type g a) :
    (TsType.array t).Reads indent .operand (.array g) a := by
  obtain ⟨f, ⟨ws, gives, spells⟩, whole, count, same⟩ := r
  refine ⟨.array f, ⟨.name "Array" :: .less :: ws ++ [.greater], fun depth => ?_, ?_⟩,
    isWhole_single rfl, rfl, ?_⟩
  · have opening : Closes "Array<" [.name "Array", .less] := fun _ => rfl
    have closing : Closes ">" [.greater] := fun _ => rfl
    exact ((gives depth).enclosed opening closing fun _ => .mark rfl).gives
  · exact .generic (.oneType spells)
  · rw [← same]
    simp [TsForm.array]

/-- The words for bytes: a string or an array, with a bar between them. -/
theorem closes_bytes {ws : List TsWord} (gives : ∀ depth, Gives (t.text indent depth) ws)
    (depth : Int) : Closes ((TsType.bytes t).text indent depth)
      (.name "string" :: .bar :: .name "Array" :: .less :: ws ++ [.greater]) := by
  have opening : Closes "string|Array<" [.name "string", .bar, .name "Array", .less] := fun _ => rfl
  have closing : Closes ">" [.greater] := fun _ => rfl
  exact (gives depth).enclosed opening closing fun _ => .mark rfl

theorem bytes (r : t.Reads indent .type g a) : (TsType.bytes t).Reads indent unionOf (.bytes g) a := by
  obtain ⟨f, ⟨ws, gives, spells⟩, whole, count, same⟩ := r
  refine ⟨.bytes f, ⟨_, fun depth => (closes_bytes gives depth).gives, ?_⟩, ⟨nofun, rfl⟩, rfl, ?_⟩
  · exact .moreOperands .name (.oneOperand (.generic (.oneType spells)))
  · rw [← same]
    simp [TsForm.bytes, TsForm.array]

/-- The brackets behind an operand make a list of it, and an operand again. -/
theorem list (r : t.Reads indent .operand g a) : (TsType.list t).Reads indent .operand (.list g) a := by
  obtain ⟨f, ⟨ws, gives, spells⟩, whole, count, same⟩ := r
  refine ⟨.list f, ⟨ws ++ [.leftBracket, .rightBracket], fun depth => ?_, .list spells⟩,
    isWhole_single rfl, rfl, ?_⟩
  · have closing : Closes "[]" [.leftBracket, .rightBracket] := fun _ => rfl
    exact ((gives depth).append_closes closing fun _ => .mark rfl).gives
  · rw [← same]
    simp

/-- The `[]` behind bytes applies to the array alone. -/
theorem listOfBytes (r : t.Reads indent .type g a) :
    ∃ f, (TsType.list (.bytes t)).ReadsAs indent (.type f) ∧
      (f = .list (.bytes g) ↔ false = true) := by
  obtain ⟨f, ⟨ws, gives, spells⟩, whole, count, same⟩ := r
  have array : TsSpells (.operand (.list (.array f)))
      (.name "Array" :: .less :: ws ++ [.greater] ++ [.leftBracket, .rightBracket]) :=
    .list (.generic (.oneType spells))
  refine ⟨.union [.name "string", .list (.array f)], ⟨_, fun depth => ?_,
    .union (.moreOperands (x := .name "string") .name (.oneOperand array))⟩, by simp⟩
  have behind : Closes "[]" [.leftBracket, .rightBracket] := fun _ => rfl
  exact ((closes_bytes gives depth).append behind).gives

/-- A bar before `undefined` makes a union with one more operand. -/
theorem nullable (r : t.Reads indent unionOf g a) (whole' : g.IsWhole) :
    (TsType.nullable t).Reads indent unionOf (.nullable g) a := by
  obtain ⟨f, ⟨ws, gives, spells⟩, whole, count, same⟩ := r
  refine ⟨.nullable f, ⟨ws ++ [.bar, .name "undefined"], fun depth => ?_, ?_⟩,
    whole.either isWhole_undefined, ?_, ?_⟩
  · have missing : Gives " | undefined" [.bar, .name "undefined"] :=
      fun rest ends => congrArg (TsWord.bar :: ·) (scan_nameEnds ends)
    exact (gives depth).append missing fun _ => .mark rfl
  · rw [unionOf, nullable_eq_either, operands_either whole isWhole_undefined]
    exact spells.union_append (.oneOperand .name)
  · rw [nullable_eq_either, nullable_eq_either, operands_either whole isWhole_undefined,
      operands_either whole' isWhole_undefined, List.length_append, List.length_append, count]
  · rw [nullable_eq_either, nullable_eq_either,
      either_inj whole isWhole_undefined whole' isWhole_undefined count, same]
    simp

end TsType.Reads

/-! ## Lists -/

/-- Each thing of the list is read as a form, and the forms are those that are meant exactly if `ok`
says so. -/
def AllRead {α : Type} (reads : α → TsForm → Prop) (things : List α) (meant : List TsForm)
    (ok : Bool) : Prop :=
  things.length = meant.length ∧ ∃ fs, List.Forall₂ reads things fs ∧ (fs = meant ↔ ok = true)

namespace AllRead

variable {α β : Type} {reads : α → TsForm → Prop} {things more : List α} {gs hs : List TsForm}
  {g : TsForm} {a b : Bool}

theorem intro {fs : List TsForm} (length : things.length = gs.length)
    (read : List.Forall₂ reads things fs) (same : fs = gs ↔ a = true) : AllRead reads things gs a :=
  ⟨length, fs, read, same⟩

theorem nil : AllRead reads [] [] true := ⟨rfl, [], .nil, by simp⟩

/-- Several things that are read as the same form. -/
theorem map {make : β → α} {items : List β}
    (h : ∃ f, (∀ item ∈ items, reads (make item) f) ∧ (f = g ↔ a = true)) :
    AllRead reads (items.map make) (List.replicate items.length g) (items.length == 0 || a) := by
  obtain ⟨f, read, same⟩ := h
  refine ⟨by simp, List.replicate items.length f, ?_, ?_⟩
  · clear same
    induction items with
    | nil => exact .nil
    | cons item items ih =>
      obtain ⟨here, later⟩ := List.forall_mem_cons.1 read
      exact .cons here (ih later)
  · rw [List.replicate_right_inj', Bool.or_eq_true, beq_iff_eq, same]

theorem replicate {thing : α} (n : Nat) (h : ∃ f, reads thing f ∧ (f = g ↔ a = true)) :
    AllRead reads (List.replicate n thing) (List.replicate n g) (n == 0 || a) := by
  obtain ⟨f, read, same⟩ := h
  have copies : AllRead reads ((List.replicate n ()).map fun _ => thing)
      (List.replicate (List.replicate n ()).length g) ((List.replicate n ()).length == 0 || a) :=
    .map ⟨f, fun _ _ => read, same⟩
  rwa [List.map_replicate, List.length_replicate] at copies

theorem cons {thing : α} (h : ∃ f, reads thing f ∧ (f = g ↔ a = true))
    (h' : AllRead reads things gs b) : AllRead reads (thing :: things) (g :: gs) (a && b) := by
  obtain ⟨f, read, same⟩ := h
  obtain ⟨length, fs, read', same'⟩ := h'
  refine ⟨congrArg (· + 1) length, f :: fs, .cons read read', ?_⟩
  rw [List.cons.injEq, Bool.and_eq_true, same, same']

/-- Parts of two lists that are read are read in one list. -/
theorem append (h : AllRead reads things gs a) (h' : AllRead reads more hs b) :
    AllRead reads (things ++ more) (gs ++ hs) (a && b) := by
  obtain ⟨length, fs, read, same⟩ := h
  obtain ⟨length', fs', read', same'⟩ := h'
  refine ⟨by rw [List.length_append, List.length_append, length, length'], fs ++ fs',
    List.rel_append read read', ?_⟩
  rw [Bool.and_eq_true, ← same, ← same']
  constructor
  · intro eq
    exact List.append_inj eq (by rw [← read.length_eq, length])
  · rintro ⟨rfl, rfl⟩
    rfl

end AllRead

/-- A comma stands between the words of a text and of those behind it. -/
theorem gives_intercalate_cons {text : String} {texts : List String} {ws vs : List TsWord}
    (h : Gives text ws) (h' : Gives (", ".intercalate texts) vs) (more : texts ≠ []) :
    Gives (", ".intercalate (text :: texts)) (ws ++ .comma :: vs) := by
  have comma : Closes ", " [.comma] := fun _ => rfl
  rw [String.intercalate_cons_of_ne_nil more]
  have both := (h.append_closes comma fun _ => .mark rfl).append_gives h'
  rwa [List.append_assoc] at both

/-- Types that are read one by one are read as a list. -/
theorem TsSpells.ofTypes {ts : List TsType} {fs : List TsForm}
    (h : List.Forall₂ (fun t f => t.ReadsAs indent (.type f)) ts fs) (some : ts ≠ []) :
    ∃ ws, (∀ depth, Gives (", ".intercalate (textsOfTypes indent depth ts)) ws) ∧
      TsSpells (.types fs) ws := by
  induction h with
  | nil => exact absurd rfl some
  | @cons t f ts fs first rest ih =>
    obtain ⟨ws, gives, spells⟩ := first
    cases rest with
    | nil => exact ⟨ws, fun depth => by simpa [textsOfTypes] using gives depth, .oneType spells⟩
    | cons second rest =>
      obtain ⟨vs, gives', spells'⟩ := ih (List.cons_ne_nil _ _)
      refine ⟨ws ++ .comma :: vs, fun depth => ?_, .moreTypes spells spells'⟩
      exact gives_intercalate_cons (gives depth) (gives' depth) (by simp [textsOfTypes])

/-! ## Parameters -/

namespace TsParam

/-- The words of a parameter, from those of its type. -/
def words (p : TsParam) (ws : List TsWord) : List TsWord :=
  (if p.spread then [.dots] else []) ++ .name p.name :: .colon :: ws

/-- The parameter is read as one of a type. -/
def ReadsAs (indent : String) (p : TsParam) (f : TsForm) : Prop :=
  IsName p.name ∧ p.type.ReadsAs indent (.type f)

end TsParam

/-- A comment behind a parameter gives no words. -/
theorem gives_append_paramNote {text : String} {ws : List TsWord} (h : Gives text ws)
    (note : String) : Gives (text ++ paramNote note) ws := by
  unfold paramNote
  split
  · rwa [String.append_empty]
  · next said =>
    have comment := closes_paramNote note
    unfold paramNote at comment
    rw [if_neg said] at comment
    have begins : EndsNames " /* " := fun _ => .mark rfl
    have both := (h.append_closes comment ((begins.append _).append _)).gives
    rwa [List.append_nil] at both

/-- A parameter gives its name, a colon, and the words of its type. -/
theorem TsParam.gives_text {p : TsParam} {ws : List TsWord} {depth : Int} (isName : IsName p.name)
    (h : Gives (p.type.text indent depth) ws) : Gives (p.text indent depth) (p.words ws) := by
  have dots : Closes (if p.spread then "..." else "") (if p.spread then [.dots] else []) := by
    cases p.spread
    · exact closes_empty
    · exact fun _ => rfl
  have colon : Closes ": " [.colon] := fun _ => rfl
  have head := (dots.append_gives isName.gives).append_closes colon fun _ => .mark rfl
  have all := gives_append_paramNote (head.append_gives h) p.note
  simp only [List.append_assoc, List.singleton_append] at all
  exact all

/-- Parameters that are read one by one are read as a list. -/
theorem TsSpells.ofEntries {ps : List TsParam} {fs : List TsForm}
    (h : List.Forall₂ (TsParam.ReadsAs indent) ps fs) (some : ps ≠ []) :
    ∃ ws, (∀ depth, Gives (", ".intercalate (textsOfParams indent depth ps)) ws) ∧
      TsSpells (.entries fs) ws := by
  induction h with
  | nil => exact absurd rfl some
  | @cons p f ps fs first rest ih =>
    obtain ⟨isName, ws, gives, spells⟩ := first
    cases rest with
    | nil =>
      refine ⟨p.words ws, fun depth => ?_, ?_⟩
      · rw [textsOfParams_cons, textsOfParams, String.intercalate_singleton]
        exact TsParam.gives_text isName (gives depth)
      · unfold TsParam.words
        split
        · exact .spread (.oneEntry spells)
        · exact .oneEntry spells
    | @cons q g ps fs second rest =>
      obtain ⟨vs, gives', spells'⟩ := ih nofun
      refine ⟨p.words ws ++ .comma :: vs, fun depth => ?_, ?_⟩
      · rw [textsOfParams_cons]
        refine gives_intercalate_cons (TsParam.gives_text isName (gives depth)) (gives' depth) ?_
        rw [textsOfParams_cons]
        exact nofun
      · unfold TsParam.words
        split
        · exact .spread (.moreEntries spells spells')
        · exact .moreEntries spells spells'

/-- The parameters of a function, with the parentheses around them. -/
theorem TsSpells.ofParams {ps : List TsParam} {fs : List TsForm}
    (h : List.Forall₂ (TsParam.ReadsAs indent) ps fs) :
    ∃ ws, (∀ depth, Gives (", ".intercalate (textsOfParams indent depth ps)) ws) ∧
      TsSpells (.params fs) (.leftParen :: ws ++ [.rightParen]) := by
  cases h with
  | nil => exact ⟨[], fun _ => closes_empty.gives, .noParams⟩
  | cons first rest =>
    obtain ⟨ws, gives, spells⟩ := TsSpells.ofEntries (.cons first rest) nofun
    exact ⟨ws, gives, .someParams spells⟩

/-! ## Types with several parts -/

/-- The type is read as the form. -/
def TsType.IsReadAs (indent : String) (t : TsType) (f : TsForm) : Prop := t.ReadsAs indent (.type f)

/-- A function as a value and behind a key: the same parameters, and then the result behind an arrow
or behind a colon. -/
theorem TsSpells.ofFunction {ps : List TsParam} {t : TsType} {fs : List TsForm} {f : TsForm}
    (params : List.Forall₂ (TsParam.ReadsAs indent) ps fs) (result : t.IsReadAs indent f) :
    ∃ ws vs, TsSpells (.params fs) ws ∧ TsSpells (.type f) vs ∧
      (∀ depth, Gives ((TsType.arrow ps t).text indent depth) (ws ++ .arrow :: vs)) ∧
      ∀ depth, Gives ((TsType.signature ps t).text indent depth) (ws ++ .colon :: vs) := by
  obtain ⟨ws, gives, spells⟩ := TsSpells.ofParams params
  obtain ⟨vs, gives', spells'⟩ := result
  have opening : Closes "(" [.leftParen] := fun _ => rfl
  refine ⟨_, vs, spells, spells', fun depth => ?_, fun depth => ?_⟩
  · have between : Closes ") => " [.rightParen, .arrow] := fun _ => rfl
    have all := ((opening.append_gives (gives depth)).append_closes between
      fun _ => .mark rfl).append_gives (gives' depth)
    simp only [List.append_assoc, List.cons_append, List.nil_append] at all ⊢
    exact all
  · have between : Closes "): " [.rightParen, .colon] := fun _ => rfl
    have all := ((opening.append_gives (gives depth)).append_closes between
      fun _ => .mark rfl).append_gives (gives' depth)
    simp only [List.append_assoc, List.cons_append, List.nil_append] at all ⊢
    exact all

/-- A bar stands between the words of two types. -/
theorem TsType.gives_binary {t u : TsType} {ws vs : List TsWord}
    (h : ∀ depth, Gives (t.text indent depth) ws) (h' : ∀ depth, Gives (u.text indent depth) vs)
    (depth : Int) : Gives ((TsType.binary t "|" u).text indent depth) (ws ++ .bar :: vs) := by
  have bar : Closes " | " [.bar] := fun _ => rfl
  have all := ((h depth).append_closes bar fun _ => .mark rfl).append_gives (h' depth)
  rw [List.append_assoc] at all
  simpa [TsType.text, String.append_assoc] using all

namespace TsType.Reads

open TsForm

variable {t u : TsType} {f g h : TsForm} {a b : Bool}

theorem isReadAs (r : t.Reads indent .type g a) : ∃ f, t.IsReadAs indent f ∧ (f = g ↔ a = true) := by
  obtain ⟨f, reads, _, _, same⟩ := r
  exact ⟨f, reads, same⟩

theorem either (r : t.Reads indent unionOf g a) (r' : u.Reads indent unionOf h b) (hg : g.IsWhole)
    (hh : h.IsWhole) : (TsType.binary t "|" u).Reads indent unionOf (.either g h) (a && b) := by
  obtain ⟨f, ⟨ws, gives, spells⟩, whole, count, same⟩ := r
  obtain ⟨f', ⟨ws', gives', spells'⟩, whole', count', same'⟩ := r'
  refine ⟨.either f f', ⟨_, gives_binary gives gives', ?_⟩, whole.either whole', ?_, ?_⟩
  · rw [unionOf, operands_either whole whole']
    exact spells.union_append spells'
  · rw [operands_either whole whole', operands_either hg hh, List.length_append, List.length_append,
      count, count']
  · rw [either_inj whole whole' hg hh count, same, same', Bool.and_eq_true]

/-- A name with arguments is read as such, and as an operand. -/
theorem generic {n : String} {args : List TsType} {gs : List TsForm}
    (base : ∀ depth, t.text indent depth = n) (isName : IsName n) (some : args ≠ [])
    (r : AllRead (IsReadAs indent) args gs a) :
    (TsType.generic t args).Reads indent .operand (.generic (.name n) gs) a := by
  obtain ⟨_, fs, reads, same⟩ := r
  obtain ⟨ws, gives, spells⟩ := TsSpells.ofTypes reads some
  refine ⟨.generic (.name n) fs, ⟨.name n :: .less :: ws ++ [.greater], fun depth => ?_,
    .generic spells⟩, isWhole_single rfl, rfl, ?_⟩
  · have opening : Closes "<" [.less] := fun _ => rfl
    have closing : Closes ">" [.greater] := fun _ => rfl
    rw [TsType.text, base]
    exact ((((isName.gives).append_closes opening fun _ => .mark rfl).append_gives
      (gives depth)).append_closes closing fun _ => .mark rfl).gives
  · rw [← same]
    simp

/-- Types in brackets are read as a tuple. -/
theorem tuple {items : List TsType} {gs : List TsForm} (some : items ≠ [])
    (r : AllRead (IsReadAs indent) items gs a) :
    (TsType.tuple items).Reads indent .operand (.tuple gs) a := by
  obtain ⟨_, fs, reads, same⟩ := r
  obtain ⟨ws, gives, spells⟩ := TsSpells.ofTypes reads some
  refine ⟨.tuple fs, ⟨.leftBracket :: ws ++ [.rightBracket], fun depth => ?_, .tuple spells⟩,
    isWhole_single rfl, rfl, ?_⟩
  · have opening : Closes "[" [.leftBracket] := fun _ => rfl
    have closing : Closes "]" [.rightBracket] := fun _ => rfl
    exact ((gives depth).enclosed opening closing fun _ => .mark rfl).gives
  · rw [← same]
    simp

/-- A parameter list, an arrow and a result are read as a function, up to where the result ends. -/
theorem arrow {ps : List TsParam} {gs : List TsForm}
    (params : AllRead (TsParam.ReadsAs indent) ps gs a)
    (result : ∃ f, t.IsReadAs indent f ∧ (f = g ↔ b = true)) :
    (TsType.arrow ps t).Reads indent .type (.arrow gs g) (a && b) := by
  obtain ⟨_, fs, reads, same⟩ := params
  obtain ⟨f, read, same'⟩ := result
  obtain ⟨ws, vs, spells, spells', gives, _⟩ := TsSpells.ofFunction reads read
  refine ⟨.arrow fs f, ⟨_, gives, .arrow spells spells'⟩, isWhole_single rfl, rfl, ?_⟩
  rw [Bool.and_eq_true, ← same, ← same']
  simp

/-- The result of a function, from its results. -/
theorem ofResults {ts : List TsType} {gs : List TsForm} (r : AllRead (IsReadAs indent) ts gs a) :
    ∃ f, (TsType.ofResults ts).IsReadAs indent f ∧ (f = TsForm.ofResults gs ↔ a = true) := by
  obtain ⟨length, fs, reads, same⟩ := r
  match reads, gs, length with
  | .nil, [], _ =>
    have void : IsName "void" := by decide
    refine ⟨.name "void", ⟨[.name "void"], fun _ => void.gives, .union (.oneOperand .name)⟩, ?_⟩
    rw [← same]
    simp [TsForm.ofResults]
  | .cons (b := f) first .nil, [g], _ =>
    refine ⟨f, first, ?_⟩
    rw [← same]
    simp [TsForm.ofResults]
  | .cons first (.cons second rest), g :: h :: gs, length =>
    have items := AllRead.intro length (.cons first (.cons second rest)) same
    exact (tuple (List.cons_ne_nil _ _) items).union.type.isReadAs

end TsType.Reads

/-! ## Members -/

namespace TsMember

/-- The member is read as one of a type, whatever stands on its line behind it. -/
def ReadsAs (indent : String) (m : TsMember) (f : TsForm) : Prop :=
  '\n' ∉ m.note.toList ∧ ∃ key ws, key.isKey = true ∧
    (∀ depth, Gives (m.text indent depth) (key :: ws)) ∧ TsSpells (.member f) ws

variable {doc : List String} {key note : String} {type : TsType} {f : TsForm}

/-- A key is one word: a name or a quoted text. -/
theorem key_gives {key : String} (h : IsName key ∨ Closes key [.quoted]) :
    ∃ word, word.isKey = true ∧ Gives key [word] := by
  rcases h with isName | quoted
  · exact ⟨.name key, rfl, isName.gives⟩
  · exact ⟨.quoted, rfl, quoted.gives⟩

/-- A member with a colon is read as its type. -/
theorem readsAs_typed {optional : Bool} (isKey : IsName key ∨ Closes key [.quoted])
    (line : '\n' ∉ note.toList) (h : type.IsReadAs indent f) :
    ReadsAs indent ⟨doc, key, optional, true, type, note⟩ f := by
  obtain ⟨word, isWord, gives⟩ := key_gives isKey
  obtain ⟨ws, gives', spells⟩ := h
  have colon : Closes ": " [.colon] := fun _ => rfl
  have mark : Closes "?" [.question] := fun _ => rfl
  cases optional with
  | false =>
    refine ⟨line, word, .colon :: ws, isWord, fun depth => ?_, .typed spells⟩
    have all := (gives.append_closes colon fun _ => .mark rfl).append_gives (gives' depth)
    simpa [text] using all
  | true =>
    refine ⟨line, word, .question :: .colon :: ws, isWord, fun depth => ?_, .optional (.typed spells)⟩
    have all := ((gives.append_closes mark fun _ => .mark rfl).append colon).append_gives (gives' depth)
    simpa [text] using all

/-- A member with a parameter list is read as a function. -/
theorem readsAs_method {ps : List TsParam} {fs : List TsForm}
    (isKey : IsName key ∨ Closes key [.quoted]) (line : '\n' ∉ note.toList)
    (params : List.Forall₂ (TsParam.ReadsAs indent) ps fs) (result : type.IsReadAs indent f) :
    ReadsAs indent ⟨doc, key, false, false, .signature ps type, note⟩ (.arrow fs f) := by
  obtain ⟨word, isWord, gives⟩ := key_gives isKey
  obtain ⟨ws, vs, spells, spells', _, gives'⟩ := TsSpells.ofFunction params result
  refine ⟨line, word, _, isWord, fun depth => ?_, .method spells spells'⟩
  have begins : EndsNames ((TsType.signature ps type).text indent depth) := by
    have opening : EndsNames "(" := fun _ => .mark rfl
    exact ((opening.append _).append _).append _
  simpa [text] using gives.append (gives' depth) begins

/-- A member of a type that is cut off is read as one of any type. -/
theorem readsAs_cut {limit : Int} (isKey : IsName key ∨ Closes key [.quoted])
    (line : '\n' ∉ note.toList) :
    ReadsAs indent ⟨doc, key, false, false, .cut limit, note⟩ .any := by
  have any : IsName "any" := by decide
  have fused : TsSpells (.member .any) (([] : List String).map TsWord.name) := .bare
  have apart : TsSpells (.member .any) (["any"].map TsWord.name) := .bare
  rcases isKey with isName | quoted
  · refine ⟨line, .name (key ++ "any"), _, rfl, fun depth => ?_, fused⟩
    simpa [text, TsType.text] using (isName.append any.parts).gives
  · refine ⟨line, .quoted, _, rfl, fun depth => ?_, apart⟩
    simpa [text, TsType.text] using quoted.append_gives any.gives

end TsMember

/-- Members that are read line by line are read as the members of a body. -/
theorem TsSpells.ofMembers {ms : List TsMember} {fs : List TsForm} (blank : IsBlank indent)
    (h : List.Forall₂ (TsMember.ReadsAs indent) ms fs) :
    ∃ ws, (∀ depth, Closes (textOfMembers indent depth ms) ws) ∧ TsSpells (.members fs) ws := by
  induction h with
  | nil => exact ⟨[], fun _ => closes_empty, .noMembers⟩
  | @cons m f ms fs first _ ih =>
    obtain ⟨line, key, ws, isKey, gives, spells⟩ := first
    obtain ⟨vs, gives', spells'⟩ := ih
    have member := TsSpells.moreMembers isKey spells spells'
    refine ⟨(if m.doc.isEmpty then [] else [.lineEnd]) ++ (key :: ws ++ .lineEnd :: vs),
      fun depth => ?_, ?_⟩
    · have margin := isBlank_indentText blank depth
      have ends : EndsNames (lineEndText m.note) := by
        unfold lineEndText
        split
        · exact fun _ => .mark rfl
        · have begins : EndsNames " // " := fun _ => .mark rfl
          exact (begins.append _).append _
      have written := (margin.closes.append_gives (gives depth)).append_closes
        (closes_lineEndText line) ends
      have all := ((closes_docBlock margin m.doc).append written).append (gives' depth)
      rw [textOfMembers_cons]
      simp only [List.append_assoc, List.nil_append, List.cons_append] at all ⊢
      exact all
    · split
      · exact member
      · exact .emptyLine member

/-- Members in braces are read as an object. -/
theorem TsType.Reads.object {ms : List TsMember} {gs : List TsForm} {a : Bool} (blank : IsBlank indent)
    (r : AllRead (TsMember.ReadsAs indent) ms gs a) :
    (TsType.object ms).Reads indent .operand (.object gs) a := by
  obtain ⟨_, fs, reads, same⟩ := r
  obtain ⟨ws, gives, spells⟩ := TsSpells.ofMembers blank reads
  refine ⟨.object fs, ⟨.leftBrace :: .lineEnd :: ws ++ [.rightBrace], fun depth => ?_, .object spells⟩,
    TsForm.isWhole_single rfl, rfl, ?_⟩
  · have opening : Closes "\x7b\n" [.leftBrace, .lineEnd] := fun _ => rfl
    have closing : Closes "\x7d" [.rightBrace] := fun _ => rfl
    have all := ((opening.append (gives (depth + 1))).append
      (isBlank_indentText blank depth).closes).append closing
    simp only [List.append_assoc, List.cons_append, List.nil_append] at all ⊢
    exact all.gives
  · rw [← same]
    simp

end Typings
