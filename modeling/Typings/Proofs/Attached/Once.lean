import Typings.Proofs.Attached.Places
import Typings.Proofs.Attached.Productions
import Typings.Proofs.Joined.Files

/-!
# How often a comment is used

A comment behind something is claimed, so it is used once. Comments on lines of their own are looked up
above what starts on a line, and stay: they are used twice if two things start that have them above
them. So no comment of a file is used twice exactly if the runs of comments above the things that start
are disjoint (`File.nodup_comments_iff`); they are if no two things start on one line, and no comment
that has its line to itself ends where something starts.
-/

namespace Typings

/-! ## Runs of comments -/

theorem docComments_sublist (line : Nat) (ms : List Comment) :
    (docComments line ms).Sublist ms.reverse := by
  induction ms generalizing line with
  | nil => exact .refl _
  | cons m ms ih =>
    rw [docComments, List.reverse_cons]
    split
    · exact (ih _).append_right [m]
    · exact (ih line).trans (List.sublist_append_left _ _)

/-- The comments of a run end above its line. -/
theorem endLine_lt_of_mem_docComments {line : Nat} {ms : List Comment} {m : Comment}
    (forward : ∀ n ∈ ms, n.pos.line ≤ n.endLine) (mem : m ∈ docComments line ms) :
    m.endLine < line := by
  induction ms generalizing line with
  | nil => cases mem
  | cons n ms ih =>
    obtain ⟨here, behind⟩ := List.forall_mem_cons.1 forward
    rw [docComments] at mem
    split at mem
    · next ends =>
      rcases List.mem_append.1 mem with above | last
      · have := ih behind above
        omega
      · rw [List.mem_singleton.1 last]
        omega
    · exact ih behind mem

/-- If no comment ends on a line, or is on both sides of it, then a run that ends below the line stays
below it. -/
theorem lt_pos_of_mem_docComments {line stop : Nat} {ms : List Comment} {m : Comment}
    (beside : ∀ n ∈ ms, n.endLine ≤ stop ∨ stop < n.pos.line) (clear : ∀ n ∈ ms, n.endLine ≠ stop)
    (below : stop < line) (mem : m ∈ docComments line ms) : stop < m.pos.line := by
  induction ms generalizing line with
  | nil => cases mem
  | cons n ms ih =>
    obtain ⟨side, behind⟩ := List.forall_mem_cons.1 beside
    obtain ⟨off, clear'⟩ := List.forall_mem_cons.1 clear
    rw [docComments] at mem
    split at mem
    · next ends =>
      have start : stop < n.pos.line := by omega
      rcases List.mem_append.1 mem with above | last
      · exact ih behind clear' start above
      · exact List.mem_singleton.1 last ▸ start
    · exact ih behind clear' below mem

/-! ## The comments of a file -/

/-- The comments of a layout on lines of their own, with the latest first. -/
def Layout.own (layout : Layout) : List Comment := (layout.comments.filter Comment.ownLine).reverse

theorem Layout.mem_own {layout : Layout} {m : Comment} :
    m ∈ layout.own ↔ m ∈ layout.comments ∧ m.ownLine = true := by
  rw [own, List.mem_reverse, List.mem_filter]

/-- The remarks of a file are made of comments of its source: of those above some of its tokens, in
their order, and of comments behind a token, each of them once. -/
structure File.Attached (file : File) (layout : Layout) (uses : List Use) : Prop where
  remarks_eq : file.remarks = remarksBy layout.own uses
  starts : (startsOf uses).Sublist layout.tokens
  claimed : (claimedBy uses).Nodup
  trailing : ∀ m ∈ claimedBy uses, m ∈ layout.comments ∧ m.ownLine = false

theorem File.attached_of_parse {source : String} {file : File} (h : File.parse source = .ok file) :
    ∃ layout uses, Layout.ofSource source = .ok layout ∧ file.Attached layout uses := by
  obtain ⟨layout, c, scanned, run⟩ := Parser.run_eq_ok.1 h
  obtain ⟨uses, spends, made⟩ := Parser.Attaches.file _ c file run (Cursor.isEnded_ofLayout layout)
  obtain ⟨kept, among, remarks⟩ := List.sublist_filterMap_iff.1 made
  obtain ⟨ts, tokens, -, starts⟩ := spends.tokens
  have order : layout.tokens = ts ++ c.rest := tokens
  have behind : (layout.comments.filter fun m => !m.ownLine).Perm (claimedBy uses ++ c.trailing) :=
    spends.trailing.symm
  have nodup := behind.nodup ((Layout.nodup_comments scanned).filter _)
  refine ⟨layout, kept, scanned, remarks, ?_, ?_, fun m mem => ?_⟩
  · rw [order]
    exact ((among.filterMap _).trans starts).trans (List.sublist_append_left _ _)
  · exact (List.nodup_append.1 nodup).1.sublist (among.filterMap _)
  · have among' : m ∈ claimedBy uses := (among.filterMap _).subset mem
    have mem' := behind.symm.subset (List.mem_append_left _ among')
    obtain ⟨comment, trails⟩ := List.mem_filter.1 mem'
    exact ⟨comment, by simpa using trails⟩

/-- The runs above two tokens have no comment in common. -/
def RunsApart (own : List Comment) (t u : Token) : Prop :=
  ∀ m ∈ docComments t.pos.line own, m ∉ docComments u.pos.line own

namespace File.Attached

variable {source : String} {file : File} {layout : Layout} {uses : List Use}

theorem ownLine_of_mem_docComments {line : Nat} {m : Comment}
    (mem : m ∈ docComments line layout.own) : m ∈ layout.own :=
  List.mem_reverse.1 ((docComments_sublist line _).subset mem)

/-- A comment of a run stands on a line of its own, and is not claimed. -/
theorem ne_of_claimed (h : file.Attached layout uses) {m n : Comment} {line : Nat}
    (run : m ∈ docComments line layout.own) (claimed : n ∈ claimedBy uses) : m ≠ n := by
  rintro rfl
  have own := (Layout.mem_own.1 (ownLine_of_mem_docComments run)).2
  exact absurd (own.symm.trans (h.trailing m claimed).2) Bool.noConfusion

/-- No comment is used twice exactly if the runs that are looked up are disjoint: a comment that is
claimed is in no run, and claimed once. -/
theorem nodup_comments_iff (h : file.Attached layout uses) (distinct : layout.comments.Nodup) :
    (uses.flatMap (Use.comments layout.own)).Nodup ↔
      (startsOf uses).Pairwise (RunsApart layout.own) := by
  have claimedOnce : uses.Pairwise fun u v => ∀ m, u.claimed? = some m → ∀ n, v.claimed? = some n →
      m ≠ n := List.pairwise_filterMap.1 h.claimed
  have each : ∀ u ∈ uses, (u.comments layout.own).Nodup := by
    intro u _
    cases u with
    | above start =>
      have ordered : layout.own.reverse.Nodup := by
        rw [Layout.own, List.reverse_reverse]
        exact distinct.filter _
      exact ordered.sublist (docComments_sublist _ _)
    | behind m => exact List.pairwise_singleton _ m
  constructor
  · intro nodup
    refine List.pairwise_filterMap.2 ((List.pairwise_flatMap.1 nodup).2.imp ?_)
    intro u v apart t start t' start'
    cases u with
    | above _ =>
      cases v with
      | above _ =>
        cases start
        cases start'
        exact fun m mem mem' => apart m mem m mem' rfl
      | behind _ => cases start'
    | behind _ => cases start
  · intro apart
    refine List.pairwise_flatMap.2 ⟨each, ?_⟩
    refine ((List.pairwise_filterMap.1 apart).and claimedOnce).imp_of_mem ?_
    intro u v mem mem' ⟨starts, claims⟩ m used n used'
    cases u with
    | above t =>
      cases v with
      | above t' =>
        rintro rfl
        exact starts t rfl t' rfl m used used'
      | behind _ =>
        cases List.mem_singleton.1 used'
        exact h.ne_of_claimed used (List.mem_filterMap.2 ⟨_, mem', rfl⟩)
    | behind _ =>
      cases List.mem_singleton.1 used
      cases v with
      | above t' => exact (h.ne_of_claimed used' (List.mem_filterMap.2 ⟨_, mem, rfl⟩)).symm
      | behind _ =>
        cases List.mem_singleton.1 used'
        exact claims m rfl n rfl

/-- If no two things start on one line, and no comment on a line of its own ends where one starts, then
the runs are disjoint. -/
theorem runsApart (h : file.Attached layout uses) (scanned : Layout.ofSource source = .ok layout)
    (lines : (startsOf uses).Pairwise fun t u => t.pos.line ≠ u.pos.line)
    (clear : ∀ t ∈ startsOf uses, ∀ m ∈ layout.own, m.endLine ≠ t.pos.line) :
    (startsOf uses).Pairwise (RunsApart layout.own) := by
  have forward : ∀ m ∈ layout.own, m.pos.line ≤ m.endLine := by
    intro m mem
    obtain ⟨rfl, -⟩ := Layout.ofItems_scan_of_ofSource scanned
    exact Layout.pos_line_le_endLine (Layout.mem_own.1 mem).1
  have beside : ∀ t ∈ startsOf uses, ∀ m ∈ layout.own, m.endLine ≤ t.pos.line ∨ t.pos.line < m.pos.line :=
    fun t mem m among =>
      Layout.ends_or_starts scanned (h.starts.subset mem) (Layout.mem_own.1 among).1
        (Layout.mem_own.1 among).2
  have apart : ∀ t ∈ startsOf uses, ∀ {u : Token} {m : Comment}, t.pos.line < u.pos.line →
      m ∈ docComments t.pos.line layout.own → m ∉ docComments u.pos.line layout.own := by
    intro t mem u m less run run'
    have above := endLine_lt_of_mem_docComments forward run
    have below := lt_pos_of_mem_docComments (beside t mem) (clear t mem) less run'
    have upright := forward m (ownLine_of_mem_docComments run)
    omega
  refine lines.imp_of_mem fun {t u} mem mem' other m run run' => ?_
  rcases Nat.lt_or_gt_of_ne other with less | more
  · exact apart t mem less run run'
  · exact apart u mem' more run' run

end File.Attached

/-- No comment of a source that can be parsed is used twice, exactly if the runs of comments above the
things that start are disjoint; in particular if no two of them start on one line, and no comment on a
line of its own ends where one starts. -/
theorem File.comments_nodup_iff {source : String} {file : File} (h : File.parse source = .ok file) :
    ∃ layout uses, Layout.ofSource source = .ok layout ∧ file.Attached layout uses ∧
      ((uses.flatMap (Use.comments layout.own)).Nodup ↔
        (startsOf uses).Pairwise (RunsApart layout.own)) ∧
      ((startsOf uses).Pairwise (fun t u => t.pos.line ≠ u.pos.line) →
        (∀ t ∈ startsOf uses, ∀ m ∈ layout.own, m.endLine ≠ t.pos.line) →
        (uses.flatMap (Use.comments layout.own)).Nodup) := by
  obtain ⟨layout, uses, scanned, attached⟩ := attached_of_parse h
  have iff := attached.nodup_comments_iff (Layout.nodup_comments scanned)
  exact ⟨layout, uses, scanned, attached, iff,
    fun lines clear => iff.2 (attached.runsApart scanned lines clear)⟩

/-- Comments above and behind declarations and members, and one in a list of parameters. -/
theorem File.comments_nodup_iff_struct :
    let source := "// A a\ntype A struct \x7b\n\t// X x\n\tX int // x\n\x7d // a\n\n// f\nfunc F(a int /* b */)"
    ∃ file layout uses, File.parse source = .ok file ∧ Layout.ofSource source = .ok layout ∧
      file.Attached layout uses ∧
      file.remarks = [.doc ⟨["// A a"]⟩, .doc ⟨["// X x"]⟩, .note ⟨["// x"]⟩, .note ⟨["// a"]⟩,
        .doc ⟨["// f"]⟩, .note ⟨["/* b */"]⟩] ∧
      ((uses.flatMap (Use.comments layout.own)).Nodup ↔
        (startsOf uses).Pairwise (RunsApart layout.own)) := by
  intro source
  have remarks : (File.parse source).toOption.map File.remarks =
      some [.doc ⟨["// A a"]⟩, .doc ⟨["// X x"]⟩, .note ⟨["// x"]⟩, .note ⟨["// a"]⟩,
        .doc ⟨["// f"]⟩, .note ⟨["/* b */"]⟩] := by
    decide +kernel
  obtain ⟨file, h, remarks⟩ := exists_of_toOption_map remarks
  obtain ⟨layout, uses, scanned, attached, iff, -⟩ := File.comments_nodup_iff h
  exact ⟨file, layout, uses, h, scanned, attached, remarks, iff⟩

/-- One comment, above a type whose one member starts on the same line: it documents both. -/
theorem File.comment_used_twice :
    let source := "// doc\ntype A struct \x7b X int \x7d"
    ∃ layout file, Layout.ofSource source = .ok layout ∧ File.parse source = .ok file ∧
      layout.comments.map Comment.text = ["// doc"] ∧
      file.remarks = [.doc ⟨["// doc"]⟩, .doc ⟨["// doc"]⟩] := by
  intro source
  have comments : (Layout.ofSource source).toOption.map (fun l => l.comments.map Comment.text) =
      some ["// doc"] := by
    decide +kernel
  have remarks : (File.parse source).toOption.map File.remarks =
      some [.doc ⟨["// doc"]⟩, .doc ⟨["// doc"]⟩] := by
    decide +kernel
  obtain ⟨layout, scanned, comments⟩ := exists_of_toOption_map comments
  obtain ⟨file, parsed, remarks⟩ := exists_of_toOption_map remarks
  exact ⟨layout, file, scanned, parsed, comments, remarks⟩

end Typings
