import Typings.Proofs.Emitter.Decls

/-!
# Declarations are rendered independently

Rendering a declaration leaves the scope and the level of an emitter as they were, so what is written
for it, its chunk, does not depend on what was rendered before. A file is its head and the chunks of
its declarations (`Rendering.ofDecls_eq_chunks`); the order of the declarations only shows as the order
of chunks and warnings (`Rendering.ofDecls_independent`).
-/

namespace Typings

namespace Diagnostics

/-- What two runs noted, one after the other. -/
def append (d e : Diagnostics) : Diagnostics := ⟨d.unknown.union e.unknown, d.warnings ++ e.warnings⟩

/-- What several runs noted, one after another. -/
def gather (ds : List Diagnostics) : Diagnostics := ds.foldr append {}

/-- Noting issues is noting what a fresh run notes of them. -/
theorem add_eq_append (d : Diagnostics) (issues : List Issue) :
    d.add issues = d.append (({} : Diagnostics).add issues) := by
  have names : d.unknown.insertAll (issues.filterMap Issue.name?) =
      d.unknown.union (NameSet.empty.insertAll (issues.filterMap Issue.name?)) := by
    apply NameSet.ext
    intro name
    simp
  simp only [add, append, List.nil_append, names]

theorem append_empty (d : Diagnostics) : d.append {} = d := by
  simp only [append, List.append_nil]
  rfl

theorem empty_append (d : Diagnostics) : append {} d = d := by
  have names : NameSet.empty.union d.unknown = d.unknown := by
    apply NameSet.ext
    intro name
    simp
  simp only [append, names, List.nil_append]

theorem append_assoc (d e f : Diagnostics) : (d.append e).append f = d.append (e.append f) := by
  have names : (d.unknown.union e.unknown).union f.unknown =
      d.unknown.union (e.unknown.union f.unknown) := by
    apply NameSet.ext
    intro name
    simp only [NameSet.mem_union, or_assoc]
  simp only [append, names, List.append_assoc]

theorem warnings_gather (ds : List Diagnostics) :
    (gather ds).warnings = ds.flatMap Diagnostics.warnings := by
  induction ds with
  | nil => rfl
  | cons d ds ih => rw [List.flatMap_cons, ← ih]; rfl

theorem mem_unknown_gather {ds : List Diagnostics} {name : String} :
    name ∈ (gather ds).unknown ↔ ∃ d ∈ ds, name ∈ d.unknown := by
  induction ds with
  | nil => simp [gather]
  | cons d ds ih =>
    have step : (gather (d :: ds)).unknown = d.unknown.union (gather ds).unknown := rfl
    rw [step, NameSet.mem_union, ih]
    simp

/-- Two runs after one another note what all their parts note. -/
theorem gather_append (ds es : List Diagnostics) :
    gather (ds ++ es) = (gather ds).append (gather es) := by
  have unknown : (gather (ds ++ es)).unknown = (gather ds).unknown.union (gather es).unknown := by
    apply NameSet.ext
    intro name
    simp only [NameSet.mem_union, mem_unknown_gather, List.mem_append, or_and_right, exists_or]
  have warnings : (gather (ds ++ es)).warnings = (gather ds).warnings ++ (gather es).warnings := by
    simp only [warnings_gather, List.flatMap_append]
  rw [append, ← unknown, ← warnings]

/-- The order of runs does not show in the names that they note. -/
theorem unknown_gather_perm {ds es : List Diagnostics} (perm : ds.Perm es) :
    (gather ds).unknown = (gather es).unknown := by
  apply NameSet.ext
  intro name
  simp only [mem_unknown_gather, perm.mem_iff]

theorem warnings_gather_perm {ds es : List Diagnostics} (perm : ds.Perm es) :
    (gather ds).warnings.Perm (gather es).warnings := by
  rw [warnings_gather, warnings_gather]
  exact perm.flatMap_right _

end Diagnostics

/-! ## Chunks -/

namespace Decl

/-- What a fresh emitter writes for a declaration by itself. -/
def chunk (config : Config) (d : Decl) : String :=
  (((Emitter.ofConfig config).render d).map Prod.fst).toOption.getD ""

/-- What a fresh emitter notes of a declaration by itself. -/
def noted (config : Config) (d : Decl) : Diagnostics :=
  (((Emitter.ofConfig config).render d).map fun written => written.2.noted).toOption.getD {}

/-- The chunks of declarations, without those of hidden ones, which are empty. -/
def chunks (config : Config) (ds : List Decl) : List String :=
  (ds.map (chunk config)).filter (· ≠ "")

theorem chunks_append (config : Config) (ds es : List Decl) :
    chunks config (ds ++ es) = chunks config ds ++ chunks config es := by
  rw [chunks, List.map_append, List.filter_append, chunks, chunks]

theorem chunks_perm (config : Config) {ds es : List Decl} (perm : ds.Perm es) :
    (chunks config ds).Perm (chunks config es) :=
  (perm.map _).filter _

end Decl

/-- What stands above the declarations of a file. -/
def headChunks (config : Config) : List String :=
  (headingText config.heading).toList ++ [dictionaryText config.startModifier]

/-- Any emitter leaves its scope and its level as they were, and one that is outside of everything
writes and notes of a declaration what a fresh one does. -/
theorem Emitter.render_restores (e : Emitter) (config : Config) {d : Decl} (known : d ≠ .unknown) :
    ∃ text after, e.render d = .ok (text, after) ∧ after.context = e.context ∧ after.level = e.level ∧
      (e.context = { config := config } → e.level = 0 →
        text = d.chunk config ∧ after.noted = e.noted.append (d.noted config)) := by
  obtain ⟨rendered, written, eq⟩ := e.render_eq known
  refine ⟨_, _, written, rfl, rfl, ?_⟩
  intro context outside
  have alone := (ofConfig config).render_outside rfl d
  rw [show (ofConfig config).context = e.context from context.symm, eq outside] at alone
  constructor
  · rw [Decl.chunk, alone]
    rfl
  · rw [Decl.noted, alone]
    exact Diagnostics.add_eq_append _ _

/-- The same holds for declarations one after another. -/
theorem Emitter.renderAll_restores (e : Emitter) (config : Config) (fresh : e.context = { config := config })
    (outside : e.level = 0) (ds : List Decl) (known : ∀ d ∈ ds, d ≠ .unknown) :
    ∃ after, e.renderAll ds = .ok (Decl.chunks config ds, after) ∧ after.context = e.context ∧
      after.level = e.level ∧
      after.noted = e.noted.append (Diagnostics.gather (ds.map (Decl.noted config))) := by
  induction ds generalizing e with
  | nil => exact ⟨e, rfl, rfl, rfl, e.noted.append_empty.symm⟩
  | cons d ds ih =>
    obtain ⟨text, next, written, scope, level, same⟩ :=
      e.render_restores config (known d List.mem_cons_self)
    obtain ⟨rfl, noted⟩ := same fresh outside
    obtain ⟨after, rest, scope', level', noted'⟩ := ih next (scope.trans fresh) (level.trans outside)
      fun d' mem => known d' (List.mem_cons_of_mem _ mem)
    refine ⟨after, ?_, scope'.trans scope, level'.trans level, ?_⟩
    · simp only [renderAll, written, rest, bind, Except.bind, Decl.chunks, List.map_cons]
      by_cases hidden : d.chunk config = "" <;> simp [hidden]
    · rw [noted', noted, Diagnostics.append_assoc]
      rfl

/-- A file is its head and the chunks of its declarations, and what is noted of it is what is noted of
each of them. -/
theorem Rendering.ofDecls_eq_chunks (config : Config) (ds : List Decl)
    (known : ∀ d ∈ ds, d ≠ .unknown) :
    Rendering.ofDecls config ds = .ok ⟨"\n".intercalate (headChunks config ++ Decl.chunks config ds),
      Diagnostics.gather (ds.map (Decl.noted config))⟩ := by
  obtain ⟨after, written, -, -, noted⟩ :=
    (Emitter.ofConfig config).renderAll_restores config rfl rfl ds known
  rw [← Emitter.file_eq, Emitter.file, written]
  have all : after.noted = Diagnostics.gather (ds.map (Decl.noted config)) :=
    noted.trans (Diagnostics.empty_append _)
  simp only [bind, Except.bind, all, headChunks, List.append_assoc, List.singleton_append]

/-- Declarations are rendered independently. An emitter leaves its scope and its level as they were
behind each of them, and outside of everything it writes and notes what a fresh emitter does of that
declaration alone. So a file of two lists is the head, the chunks of the first and those of the second;
the unresolved names of both are put together, and the warnings follow one another. In any other order
the file has the same chunks and the same warnings in that order, and the same unresolved names. -/
theorem Rendering.ofDecls_independent (config : Config) (ds es : List Decl)
    (known : ∀ d ∈ ds ++ es, d ≠ .unknown) :
    (∀ d ∈ ds ++ es, ∀ e : Emitter, ∃ text after, e.render d = .ok (text, after) ∧
      after.context = e.context ∧ after.level = e.level ∧
      (e.context = { config := config } → e.level = 0 →
        text = d.chunk config ∧ after.noted = e.noted.append (d.noted config))) ∧
    ∃ first second, Rendering.ofDecls config ds = .ok first ∧
      Rendering.ofDecls config es = .ok second ∧
      Rendering.ofDecls config (ds ++ es) = .ok
        ⟨"\n".intercalate (headChunks config ++ Decl.chunks config ds ++ Decl.chunks config es),
          ⟨first.noted.unknown.union second.noted.unknown,
            first.noted.warnings ++ second.noted.warnings⟩⟩ ∧
      ∀ fs, fs.Perm (ds ++ es) → ∃ third, Rendering.ofDecls config fs = .ok third ∧
        third.text = "\n".intercalate (headChunks config ++ Decl.chunks config fs) ∧
        (Decl.chunks config fs).Perm (Decl.chunks config ds ++ Decl.chunks config es) ∧
        third.noted.unknown = first.noted.unknown.union second.noted.unknown ∧
        third.noted.warnings = fs.flatMap (fun d => (d.noted config).warnings) ∧
        third.noted.warnings.Perm (first.noted.warnings ++ second.noted.warnings) := by
  have known₁ : ∀ d ∈ ds, d ≠ .unknown := fun d mem => known d (List.mem_append_left _ mem)
  have known₂ : ∀ d ∈ es, d ≠ .unknown := fun d mem => known d (List.mem_append_right _ mem)
  refine ⟨fun d mem e => e.render_restores config (known d mem), ?_⟩
  have both := Diagnostics.gather_append (ds.map (Decl.noted config)) (es.map (Decl.noted config))
  rw [← List.map_append] at both
  refine ⟨_, _, ofDecls_eq_chunks config ds known₁, ofDecls_eq_chunks config es known₂, ?_, ?_⟩
  · rw [ofDecls_eq_chunks config _ known, Decl.chunks_append, both, List.append_assoc]
    rfl
  · intro fs perm
    have noted := perm.map (Decl.noted config)
    refine ⟨_, ofDecls_eq_chunks config fs fun d mem => known d (perm.mem_iff.1 mem), rfl, ?_, ?_, ?_, ?_⟩
    · rw [← Decl.chunks_append]
      exact Decl.chunks_perm config perm
    · rw [Diagnostics.unknown_gather_perm noted, both]
      rfl
    · rw [Diagnostics.warnings_gather, List.flatMap_map]
    · have warnings := Diagnostics.warnings_gather_perm noted
      rwa [both] at warnings

/-- The type parameter of `Box` is out of scope behind it: `Use` notes the name `T`, in either order. -/
theorem Rendering.ofDecls_independent_generic :
    let box : Decl := .typeSpec ⟨"Box", .struct [⟨["Val"], .name "T", none, none, none⟩],
      [⟨["T"], .name "any", none, none, none⟩], none, none, false⟩
    let use : Decl := .func { name := "Use", params := [⟨["v"], .name "T", none, none, none⟩] }
    Decl.chunks {} [box] = ["interface Box<T> \x7b\n  Val: T\n\x7d\n"] ∧
    Decl.chunks {} [use] = ["interface Use \x7b\n  (v: T): void\n\x7d\n"] ∧
    ∃ first second, Rendering.ofDecls {} [box] = .ok first ∧ Rendering.ofDecls {} [use] = .ok second ∧
      first.noted.unknown = .empty ∧ second.noted.unknown = .ofList ["T"] ∧
      Rendering.ofDecls {} [box, use] = .ok
        ⟨"\n".intercalate (headChunks {} ++ Decl.chunks {} [box] ++ Decl.chunks {} [use]),
          ⟨first.noted.unknown.union second.noted.unknown,
            first.noted.warnings ++ second.noted.warnings⟩⟩ ∧
      ∃ third, Rendering.ofDecls {} [use, box] = .ok third ∧
        third.text = "\n".intercalate (headChunks {} ++ Decl.chunks {} [use, box]) ∧
        third.noted.unknown = first.noted.unknown.union second.noted.unknown := by
  intro box use
  obtain ⟨-, first, second, boxed, used, both, reordered⟩ :=
    Rendering.ofDecls_independent {} [box] [use] (by simp [box, use])
  obtain ⟨third, swapped, text, -, unknown, -⟩ := reordered [use, box] (List.Perm.swap _ _ _)
  refine ⟨by decide +kernel, by decide +kernel, first, second, boxed, used, ?_, ?_, both, third,
    swapped, text, unknown⟩
  · have names : (Rendering.ofDecls {} [box]).map (·.noted.unknown) = .ok .empty := by decide +kernel
    rw [boxed] at names
    exact Except.ok.inj names
  · have names : (Rendering.ofDecls {} [use]).map (·.noted.unknown) = .ok (.ofList ["T"]) := by
      decide +kernel
    rw [used] at names
    exact Except.ok.inj names

end Typings
