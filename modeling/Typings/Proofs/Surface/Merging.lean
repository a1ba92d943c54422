import Mathlib.Data.List.Pairwise
import Typings.Proofs.Comments.Inert

/-!
# Which declarations merge

A script sees one type under each name: of several declarations of a name, all must be interfaces with
the same type parameters. The methods of a type are written in interfaces of their own, whose heads
come from the receivers and not from the type. So the declarations of a file merge exactly if each type
with methods is a struct, an interface or a function, and all receivers name its type parameters as it
does itself (`Rendering.ofDecls_merges_iff`).
-/

namespace Typings

/-! ## Heads -/

/-- What decides whether a declaration merges with others: whether it is an interface, its name, and
the names of its type parameters. -/
structure TsHead where
  isInterface : Bool
  name : String
  typeParams : List String
  deriving DecidableEq, Repr

namespace TsHead

/-- The head as it is written. -/
def text (h : TsHead) : String :=
  (if h.isInterface then "interface " else "type ") ++ h.name ++ typeParamsText h.typeParams

/-- Declarations with these heads may stand in one file: they have different names, or they are
interfaces with the same type parameters. -/
def Merges (h k : TsHead) : Prop :=
  h.name = k.name → h.isInterface ∧ k.isInterface ∧ h.typeParams = k.typeParams

instance (h k : TsHead) : Decidable (h.Merges k) :=
  inferInstanceAs (Decidable (h.name = k.name → _))

instance : Std.Symm Merges where
  symm h k merges := by
    intro same
    obtain ⟨first, second, params⟩ := merges same.symm
    exact ⟨second, first, params.symm⟩

/-- The head of the declaration of the dictionary type. -/
def dictionary : TsHead := ⟨false, dictionaryName, []⟩

end TsHead

namespace TsDecl

/-- The head of a declaration. -/
def head : TsDecl → TsHead
  | .interface _ name typeParams _ _ => ⟨true, name, typeParams⟩
  | .synonym _ name typeParams _ _ => ⟨false, name, typeParams⟩

/-- The lines of documentation above a declaration. -/
def doc : TsDecl → List String
  | .interface doc .. => doc
  | .synonym doc .. => doc

/-- Below its documentation a declaration begins with its head and a space. -/
theorem exists_text_eq (indent startModifier : String) (t : TsDecl) :
    ∃ body, t.text indent startModifier =
      docBlock "" t.doc ++ modifierText startModifier ++ t.head.text ++ " " ++ body := by
  cases t with
  | interface doc name params bases members =>
    let rest := "\x7b\n" ++ textOfMembers indent 1 members ++ "\x7d\n"
    have space : " \x7b\n" = " " ++ "\x7b\n" := rfl
    by_cases none : bases.isEmpty = true
    · refine ⟨rest, ?_⟩
      simp only [rest, text, TsDecl.doc, head, TsHead.text, extendsText, none, space, if_true,
        String.append_assoc, String.empty_append]
    · refine ⟨"extends " ++ ", ".intercalate (textsOfTypes indent 0 bases) ++ " " ++ rest, ?_⟩
      have extending : " extends " = " " ++ "extends " := rfl
      simp only [rest, text, TsDecl.doc, head, TsHead.text, extendsText, none, space, extending,
        if_true, Bool.false_eq_true, if_false, String.append_assoc]
  | synonym doc name params type note =>
    refine ⟨"= " ++ type.text indent 0 ++ lineEndText note, ?_⟩
    have equals : " = " = " " ++ "= " := rfl
    simp only [text, TsDecl.doc, head, TsHead.text, equals, Bool.false_eq_true, if_false,
      String.append_assoc]

end TsDecl

/-! ## Heads in the source -/

/-- The type is written as the body of an interface. -/
def TypeExpr.isBody : TypeExpr → Bool
  | .struct _ | .interface _ | .func .. => true
  | _ => false

namespace Decl

/-- The name that a type or a function declares; a method declares none. -/
def ownName? : Decl → Option String
  | .typeSpec spec => some spec.name
  | .func decl => if decl.recv.isNone then some decl.name else none
  | .unknown => none

/-- The head of a type or a function, unless it is hidden. -/
def ownHead? : Decl → Option TsHead
  | .typeSpec spec =>
    if Name.isVisible spec.name then
      some ⟨spec.type.isBody, spec.name, Field.allNames spec.typeParams⟩
    else none
  | .func decl =>
    if decl.recv.isNone && Name.isVisible decl.name then
      some ⟨true, decl.name, Field.allNames decl.typeParams⟩
    else none
  | .unknown => none

/-- The receiver's type and the names of its type parameters, unless the declaration is no method or
a hidden one. -/
def receiver? : Decl → Option (String × List String)
  | .func decl =>
    match decl.recv with
    | some recv =>
      if Name.isVisible decl.name && Name.isVisible recv.receiver.1 then some recv.receiver else none
    | none => none
  | _ => none

/-- The head that is written for a declaration. -/
def head? (d : Decl) : Option TsHead :=
  d.ownHead?.or (d.receiver?.map fun (name, params) => ⟨true, name, params⟩)

end Decl

/-- The methods among declarations fit: where the type of a receiver, or a function of that name, is
declared, this is an interface with the type parameters of the receiver; and receivers of one type name
its type parameters alike. -/
def MethodsFit (ds : List Decl) : Prop :=
  ∀ recv ∈ ds.filterMap Decl.receiver?,
    (∀ own ∈ ds.filterMap Decl.ownHead?, own.name = recv.1 →
      own.isInterface ∧ own.typeParams = recv.2) ∧
    ∀ other ∈ ds.filterMap Decl.receiver?, other.1 = recv.1 → other.2 = recv.2

/-! ## What is written -/

theorem TsDecl.head_ofTypeSpec? (ctx : Context) (spec : TypeSpec) :
    (ofTypeSpec? ctx spec).map head = (Decl.typeSpec spec).head? := by
  unfold ofTypeSpec? Decl.head? Decl.ownHead? Decl.receiver?
  by_cases visible : Name.isVisible spec.name = true
  · simp only [visible, if_true, Option.map_some, Option.some_or]
    cases spec.type <;> rfl
  · simp only [visible, Bool.false_eq_true, if_false, Option.map_none, Option.or_none]

theorem TsDecl.head_ofMethod? (ctx : Context) (decl : FuncDecl) {recv : Field}
    (h : decl.recv = some recv) : (ofMethod? ctx decl recv).map head = (Decl.func decl).head? := by
  unfold ofMethod? Decl.head? Decl.ownHead? Decl.receiver?
  simp only [h, Option.isNone_some, Bool.false_and, Bool.false_eq_true, if_false, Option.none_or]
  split <;> rfl

theorem TsDecl.head_ofFunction? (ctx : Context) (decl : FuncDecl) (h : decl.recv = none) :
    (ofFunction? ctx decl).map head = (Decl.func decl).head? := by
  unfold ofFunction? Decl.head? Decl.ownHead? Decl.receiver?
  simp only [h, Option.isNone_none, Bool.true_and, Option.map_none, Option.or_none]
  split <;> rfl

/-- A declaration is written with its head. -/
theorem TsDecl.exists_ofDecl (ctx : Context) {d : Decl} (known : d ≠ .unknown) :
    ∃ t, ofDecl ctx d = .ok t ∧ t.map head = d.head? := by
  cases d with
  | typeSpec spec => exact ⟨_, rfl, head_ofTypeSpec? ctx spec⟩
  | func decl =>
    cases recv : decl.recv with
    | none => exact ⟨ofFunction? ctx decl, by rw [ofDecl, recv], head_ofFunction? ctx decl recv⟩
    | some field =>
      exact ⟨ofMethod? ctx decl field, by rw [ofDecl, recv], head_ofMethod? ctx decl recv⟩
  | unknown => exact absurd rfl known

/-- Declarations are written with their heads, in order. -/
theorem TsDecl.exists_ofDecls (ctx : Context) {ds : List Decl} (known : ∀ d ∈ ds, d ≠ .unknown) :
    ∃ ts, ofDecls ctx ds = .ok ts ∧ ts.map head = ds.filterMap Decl.head? := by
  induction ds with
  | nil => exact ⟨[], rfl, rfl⟩
  | cons d ds ih =>
    obtain ⟨here, later⟩ := List.forall_mem_cons.1 known
    obtain ⟨t, first, heads⟩ := exists_ofDecl ctx here
    obtain ⟨ts, rest, heads'⟩ := ih later
    refine ⟨t.toList ++ ts, ?_, ?_⟩
    · rw [ofDecls, first, rest]
      rfl
    · rw [List.map_append, heads', List.filterMap_cons, ← heads]
      cases t <;> rfl

/-! ## Which heads merge -/

namespace Decl

variable {d : Decl} {h : TsHead} {recv : String × List String}

theorem ownHead?_of_receiver? (reopens : d.receiver? = some recv) : d.ownHead? = none := by
  cases d with
  | func decl =>
    cases field : decl.recv with
    | none =>
      rw [receiver?, field] at reopens
      cases reopens
    | some _ => simp [ownHead?, field]
  | _ => cases reopens

/-- A head is that of a type or a function, or that of the interface of a method. -/
theorem head?_eq_some_iff :
    d.head? = some h ↔
      d.ownHead? = some h ∨ ∃ recv, d.receiver? = some recv ∧ ⟨true, recv.1, recv.2⟩ = h := by
  rw [head?, Option.or_eq_some_iff, Option.map_eq_some_iff]
  constructor
  · rintro (own | ⟨-, reopens⟩)
    · exact .inl own
    · exact .inr reopens
  · rintro (own | ⟨recv, reopens, same⟩)
    · exact .inl own
    · exact .inr ⟨ownHead?_of_receiver? reopens, recv, reopens, same⟩

/-- What is declared under a head is declared under its name, and the name is visible. -/
theorem name_of_ownHead? (own : d.ownHead? = some h) :
    d.ownName? = some h.name ∧ Name.isVisible h.name = true := by
  cases d with
  | typeSpec spec =>
    obtain ⟨visible, same⟩ := Option.ite_none_right_eq_some.1 own
    cases same
    exact ⟨rfl, visible⟩
  | func decl =>
    obtain ⟨visible, same⟩ := Option.ite_none_right_eq_some.1 own
    obtain ⟨plain, visible⟩ := Bool.and_eq_true_iff.1 visible
    cases same
    exact ⟨if_pos plain, visible⟩
  | unknown => cases own

theorem isVisible_of_receiver? (reopens : d.receiver? = some recv) :
    Name.isVisible recv.1 = true := by
  cases d with
  | func decl =>
    cases field : decl.recv with
    | none =>
      rw [receiver?, field] at reopens
      cases reopens
    | some _ =>
      simp only [receiver?, field, Option.ite_none_right_eq_some] at reopens
      obtain ⟨visible, same⟩ := reopens
      cases same
      exact (Bool.and_eq_true_iff.1 visible).2
  | _ => cases reopens

theorem isVisible_of_head? (head : d.head? = some h) : Name.isVisible h.name = true := by
  rcases head?_eq_some_iff.1 head with own | ⟨recv, reopens, same⟩
  · exact (name_of_ownHead? own).2
  · rw [← same]
    exact isVisible_of_receiver? reopens

end Decl

/-- No visible declaration has the name of the dictionary type. -/
theorem TsHead.dictionary_merges {ds : List Decl} :
    ∀ h ∈ ds.filterMap Decl.head?, dictionary.Merges h := by
  intro h mem same
  obtain ⟨d, -, head⟩ := List.mem_filterMap.1 mem
  have visible := Decl.isVisible_of_head? head
  rw [← same] at visible
  exact absurd visible (by decide)

/-- Where all heads merge, the methods fit. -/
theorem MethodsFit.of_merges {ds : List Decl}
    (merges : (ds.filterMap Decl.head?).Pairwise TsHead.Merges) : MethodsFit ds := by
  have any : ∀ {h k : TsHead}, h ∈ ds.filterMap Decl.head? → k ∈ ds.filterMap Decl.head? → h ≠ k →
      h.Merges k := fun {h k} first second other =>
    merges.forall first second other
  have reopened : ∀ {recv}, recv ∈ ds.filterMap Decl.receiver? →
      ⟨true, recv.1, recv.2⟩ ∈ ds.filterMap Decl.head? := by
    intro recv mem
    obtain ⟨d, among, reopens⟩ := List.mem_filterMap.1 mem
    exact List.mem_filterMap.2 ⟨d, among, Decl.head?_eq_some_iff.2 (.inr ⟨recv, reopens, rfl⟩)⟩
  intro recv mem
  constructor
  · intro own mem' same
    obtain ⟨d, among, head⟩ := List.mem_filterMap.1 mem'
    have written : own ∈ ds.filterMap Decl.head? :=
      List.mem_filterMap.2 ⟨d, among, Decl.head?_eq_some_iff.2 (.inl head)⟩
    by_cases equal : own = ⟨true, recv.1, recv.2⟩
    · simp [equal]
    · obtain ⟨isInterface, -, params⟩ := any written (reopened mem) equal same
      exact ⟨isInterface, params⟩
  · intro other mem' same
    by_cases equal : other = recv
    · rw [equal]
    · have differ : (⟨true, other.1, other.2⟩ : TsHead) ≠ ⟨true, recv.1, recv.2⟩ := by
        intro heads
        obtain ⟨-, name, params⟩ := TsHead.mk.inj heads
        exact equal (Prod.ext name params)
      exact (any (reopened mem') (reopened mem) differ same).2.2

/-- Where methods fit and each name is declared once, all heads merge. -/
theorem MethodsFit.merges {ds : List Decl} (fit : MethodsFit ds)
    (once : (ds.filterMap Decl.ownName?).Nodup) :
    (ds.filterMap Decl.head?).Pairwise TsHead.Merges := by
  rw [List.pairwise_filterMap]
  refine (List.pairwise_filterMap.1 once).imp_of_mem ?_
  intro d d' mem mem' differ h head h' head' same
  -- the two are the declarations of a type or function or of a method each
  rcases Decl.head?_eq_some_iff.1 head with own | ⟨recv, reopens, rfl⟩
  · rcases Decl.head?_eq_some_iff.1 head' with own' | ⟨recv', reopens', rfl⟩
    · exact absurd same (differ _ (Decl.name_of_ownHead? own).1 _ (Decl.name_of_ownHead? own').1)
    · obtain ⟨fits, -⟩ := fit recv' (List.mem_filterMap.2 ⟨d', mem', reopens'⟩)
      obtain ⟨isInterface, params⟩ := fits h (List.mem_filterMap.2 ⟨d, mem, own⟩) same
      exact ⟨isInterface, rfl, params⟩
  · obtain ⟨fits, alike⟩ := fit recv (List.mem_filterMap.2 ⟨d, mem, reopens⟩)
    rcases Decl.head?_eq_some_iff.1 head' with own' | ⟨recv', reopens', rfl⟩
    · obtain ⟨isInterface, params⟩ := fits h' (List.mem_filterMap.2 ⟨d', mem', own'⟩) same.symm
      exact ⟨rfl, isInterface, params.symm⟩
    · exact ⟨rfl, rfl, (alike recv' (List.mem_filterMap.2 ⟨d', mem', reopens'⟩) same.symm).symm⟩

/-- When the declarations of a file merge. Let each type be declared once, and no function share its
name with a type or another function. Then the file is written, each declaration below its
documentation begins with its head, and any two declarations of one name, that of the dictionary type
among them, are interfaces with the same type parameters exactly if the methods fit. -/
theorem Rendering.ofDecls_merges_iff (config : Config) {ds : List Decl}
    (known : ∀ d ∈ ds, d ≠ .unknown) (once : (ds.filterMap Decl.ownName?).Nodup) :
    ∃ written r, TsDecl.ofDecls { config := config } ds = .ok written ∧
      Rendering.ofDecls config ds = .ok r ∧ r.text = fileText config written ∧
      (∀ t ∈ written, ∃ body, t.text config.indent config.startModifier =
        docBlock "" t.doc ++ modifierText config.startModifier ++ t.head.text ++ " " ++ body) ∧
      ((TsHead.dictionary :: written.map TsDecl.head).Pairwise TsHead.Merges ↔ MethodsFit ds) := by
  obtain ⟨written, made, heads⟩ := TsDecl.exists_ofDecls { config := config } known
  obtain ⟨r, run, text⟩ := Rendering.exists_of_ofDecls made
  refine ⟨written, r, made, run, text, ?_, ?_⟩
  · intro t _
    exact t.exists_text_eq config.indent config.startModifier
  · rw [heads, List.pairwise_cons]
    constructor
    · rintro ⟨-, merges⟩
      exact .of_merges merges
    · intro fit
      exact ⟨TsHead.dictionary_merges, fit.merges once⟩

/-- A generic struct with two methods, whose receivers name its type parameter as it does. -/
theorem Rendering.ofDecls_merges_iff_generic :
    let recv : Field := ⟨["b"], .pointer (.generic (.name "Box") [.name "T"]), none, none, none⟩
    let box : Decl := .typeSpec { name := "Box", type := .struct [],
                                  typeParams := [⟨["T"], .name "any", none, none, none⟩] }
    let ds : List Decl := [box, .func { name := "Get", recv := some recv },
      .func { name := "Put", recv := some recv }]
    ds.filterMap Decl.receiver? = [("Box", ["T"]), ("Box", ["T"])] ∧ MethodsFit ds ∧
    ∃ written r, TsDecl.ofDecls { config := {} } ds = .ok written ∧ Rendering.ofDecls {} ds = .ok r ∧
      r.text = fileText {} written ∧
      (TsHead.dictionary :: written.map TsDecl.head).Pairwise TsHead.Merges := by
  intro recv box ds
  have receivers : ds.filterMap Decl.receiver? = [("Box", ["T"]), ("Box", ["T"])] := by decide
  have owns : ds.filterMap Decl.ownHead? = [⟨true, "Box", ["T"]⟩] := by decide
  have fit : MethodsFit ds := by
    unfold MethodsFit
    rw [receivers, owns]
    decide
  obtain ⟨written, r, made, run, text, -, merges⟩ :=
    Rendering.ofDecls_merges_iff {} (show ∀ d ∈ ds, d ≠ .unknown by simp [ds, box]) (by decide)
  exact ⟨receivers, fit, written, r, made, run, text, merges.2 fit⟩

/-- A receiver that names the type parameter of a struct in its own way: two interfaces of one name
with different type parameters are written, though each name is declared once. -/
theorem Rendering.ofDecls_not_merges :
    ∃ file written,
      File.parse "type Box[T any] struct \x7b V T \x7d\nfunc (b *Box[U]) Get() U \x7b return b.V \x7d" =
        .ok file ∧
      (file.decls.filterMap Decl.ownName?).Nodup ∧
      TsDecl.ofDecls { config := {} } file.decls = .ok written ∧
      ¬(TsHead.dictionary :: written.map TsDecl.head).Pairwise TsHead.Merges := by
  have summary : (File.parse
      "type Box[T any] struct \x7b V T \x7d\nfunc (b *Box[U]) Get() U \x7b return b.V \x7d").toOption.map
      (fun file => (file.decls.filterMap Decl.ownName?,
        (TsDecl.ofDecls { config := {} } file.decls).toOption.map (·.map TsDecl.head))) =
      some (["Box"], some [⟨true, "Box", ["T"]⟩, ⟨true, "Box", ["U"]⟩]) := by
    decide +kernel
  obtain ⟨file, read, summary⟩ := exists_of_toOption_map summary
  obtain ⟨names, heads⟩ := Prod.mk.inj summary
  obtain ⟨written, made, heads⟩ := exists_of_toOption_map heads
  refine ⟨file, written, read, ?_, made, ?_⟩
  · rw [names]
    decide
  · rw [heads]
    decide

end Typings
