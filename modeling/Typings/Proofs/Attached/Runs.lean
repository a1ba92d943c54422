import Typings.Proofs.Attached.Once

/-!
# Comments directly above a line

A comment stands alone if no token has a character on its lines. Above a line stands the run of such
comments that ends there, with no line between that is not one of theirs (`Layout.runAbove`). What is
looked up above the line is that run exactly if all that is found stands alone, and no two comments of
the run share a line (`Layout.docAbove_eq_runAbove_iff`): of comments that end on one line only the
latest is found, and whether a token follows a comment is not asked.

Lines are those on which tokens and comments are recorded.
-/

namespace Typings

/-! ## Runs -/

/-- The comment ends above the line, and each line between is one of a comment among some that ends
above the line too. -/
def Comment.InRun (ms : List Comment) (line : Nat) (m : Comment) : Prop :=
  m.endLine < line ∧ ∀ l < line, m.endLine < l →
    ∃ n ∈ ms, n.pos.line ≤ l ∧ l ≤ n.endLine ∧ n.endLine < line

instance (ms : List Comment) (line : Nat) : DecidablePred (Comment.InRun ms line) := fun m =>
  inferInstanceAs (Decidable (m.endLine < line ∧ ∀ l < line, m.endLine < l →
    ∃ n ∈ ms, n.pos.line ≤ l ∧ l ≤ n.endLine ∧ n.endLine < line))

namespace Comment.InRun

variable {ms ns : List Comment} {line : Nat} {m n : Comment}

theorem last (ends : m.endLine + 1 = line) : m.InRun ms line := by
  refine ⟨by omega, fun l lt lt' => ?_⟩
  omega

/-- A run goes on below by a comment that ends directly above the line. -/
theorem extend (h : n.InRun ms m.pos.line) (mem : m ∈ ms) (upright : m.pos.line ≤ m.endLine)
    (ends : m.endLine + 1 = line) : n.InRun ms line := by
  refine ⟨by have := h.1; omega, fun l lt lt' => ?_⟩
  rcases Nat.lt_or_ge l m.pos.line with above | here
  · obtain ⟨k, among, begins, reaches, stops⟩ := h.2 l above lt'
    exact ⟨k, among, begins, reaches, by omega⟩
  · exact ⟨m, mem, here, by omega, by omega⟩

/-- What fills a line of a run is in the run. -/
theorem exists_at (h : m.InRun ms line) {l : Nat} (lt : l < line) (lt' : m.endLine < l) :
    ∃ n ∈ ms, n.InRun ms line ∧ n.pos.line ≤ l ∧ l ≤ n.endLine := by
  obtain ⟨n, among, begins, reaches, stops⟩ := h.2 l lt lt'
  exact ⟨n, among, ⟨stops, fun l' low high => h.2 l' low (by omega)⟩, begins, reaches⟩

/-- Without its last comment, a run ends where that starts, if it shares its lines with no other. -/
theorem shorten (h : n.InRun ms line) (before : n.endLine < m.pos.line)
    (upright : m.pos.line < line)
    (others : ∀ k ∈ ms, k.InRun ms line → k = m ∨ k.endLine < m.pos.line) :
    n.InRun ms m.pos.line := by
  refine ⟨before, fun l lt lt' => ?_⟩
  obtain ⟨k, among, run, begins, reaches⟩ := h.exists_at (Nat.lt_trans lt upright) lt'
  rcases others k among run with rfl | above
  · omega
  · exact ⟨k, among, begins, reaches, above⟩

/-- What is looked up is in the run, if it is among the comments that the run is made of. -/
theorem of_mem_docComments (upright : ∀ m ∈ ns, m.pos.line ≤ m.endLine)
    (alone : ∀ m ∈ docComments line ns, m ∈ ms) (mem : m ∈ docComments line ns) :
    m.InRun ms line := by
  induction ns generalizing line with
  | nil => cases mem
  | cons n ns ih =>
    obtain ⟨here, later⟩ := List.forall_mem_cons.1 upright
    rw [docComments] at mem alone
    split at mem
    · next ends =>
      rw [if_pos ends] at alone
      rcases List.mem_append.1 mem with above | last
      · have run := ih later (fun m mem => alone m (List.mem_append_left _ mem)) above
        exact run.extend (alone n (List.mem_append_right _ List.mem_cons_self)) here ends
      · rw [List.mem_singleton.1 last]
        exact .last ends
    · next elsewhere =>
      rw [if_neg elsewhere] at alone
      exact ih later alone mem

/-- All of the run is looked up, if its comments share no lines. The list is that of all comments that
may be looked up, with the latest first. -/
theorem mem_docComments (upright : ∀ m ∈ ns, m.pos.line ≤ m.endLine)
    (order : ns.Pairwise fun m n => n.endLine ≤ m.pos.line)
    (among : ∀ m ∈ ms, m.InRun ms line → m ∈ ns) (alone : ∀ m ∈ docComments line ns, m ∈ ms)
    (apart : ∀ m ∈ ms, ∀ n ∈ ms, m.InRun ms line → n.InRun ms line →
      m = n ∨ m.endLine < n.pos.line ∨ n.endLine < m.pos.line)
    (mem : m ∈ ms) (run : m.InRun ms line) : m ∈ docComments line ns := by
  induction ns generalizing line m with
  | nil => cases among m mem run
  | cons n ns ih =>
    obtain ⟨here, later⟩ := List.forall_mem_cons.1 upright
    obtain ⟨first, order⟩ := List.pairwise_cons.1 order
    rw [docComments] at alone ⊢
    split
    · next ends =>
      rw [if_pos ends] at alone
      have own : n ∈ ms := alone n (List.mem_append_right _ List.mem_cons_self)
      have others : ∀ k ∈ ms, k.InRun ms line → k = n ∨ k.endLine < n.pos.line := by
        intro k memK runK
        have := runK.1
        have := upright k (among k memK runK)
        rcases apart k memK n own runK (.last ends) with same | above | below
        · exact .inl same
        · exact .inr above
        · omega
      have longer : ∀ k : Comment, k.InRun ms n.pos.line → k.InRun ms line :=
        fun k runK => runK.extend own here ends
      rcases others m mem run with rfl | above
      · exact List.mem_append_right _ List.mem_cons_self
      · refine List.mem_append_left _ (ih later order (fun k memK runK => ?_)
          (fun k memK => alone k (List.mem_append_left _ memK))
          (fun k memK k' memK' runK runK' => apart k memK k' memK' (longer k runK) (longer k' runK'))
          mem (run.shorten above (by omega) others))
        rcases List.mem_cons.1 (among k memK (longer k runK)) with rfl | behind
        · have := runK.1
          omega
        · exact behind
    · next elsewhere =>
      rw [if_neg elsewhere] at alone
      refine ih later order (fun k memK runK => ?_) alone apart mem run
      rcases List.mem_cons.1 (among k memK runK) with rfl | behind
      · -- `k` is the latest comment, so that nothing fills the line above the given one.
        have := runK.1
        obtain ⟨k', memK', runK', _, reaches⟩ := runK.exists_at (l := line - 1) (by omega) (by omega)
        rcases List.mem_cons.1 (among k' memK' runK') with rfl | earlier
        · omega
        · have := first k' earlier
          omega
      · exact behind

end Comment.InRun

/-- The comments as a group, if there are any. -/
def CommentGroup.ofComments? : List Comment → Option CommentGroup
  | [] => none
  | m :: ms => some ⟨(m :: ms).map Comment.text⟩

theorem Cursor.docAbove_eq (c : Cursor) (line : Nat) :
    c.docAbove line = CommentGroup.ofComments? (docComments line c.own) := by
  rw [docAbove, docRun_eq_map]
  cases docComments line c.own <;> rfl

/-! ## Comments that stand alone -/

/-- The line on which the last character of a token is recorded. -/
def Token.endLine (t : Token) : Nat := ((Item.word t.lexeme).stop t.pos).line

namespace Layout

/-- No token has a character on the lines of the comment. A semicolon that a line end brings about has
no characters. -/
def Standalone (layout : Layout) (m : Comment) : Prop :=
  ∀ t ∈ layout.tokens, t.auto = false → t.endLine < m.pos.line ∨ m.endLine < t.pos.line

instance (layout : Layout) : DecidablePred layout.Standalone := fun m =>
  inferInstanceAs (Decidable (∀ t ∈ layout.tokens, t.auto = false →
    t.endLine < m.pos.line ∨ m.endLine < t.pos.line))

/-- The comments that stand alone. -/
def standalone (layout : Layout) : List Comment := layout.comments.filter fun m => layout.Standalone m

/-- The run of comments that stand alone that ends directly above a line. -/
def runAbove (layout : Layout) (line : Nat) : List Comment :=
  layout.standalone.filter fun m => m.InRun layout.standalone line

variable {p : Position} {last : Option Lexeme} {items : List Item} {m : Comment}

theorem mem_standalone {layout : Layout} :
    m ∈ layout.standalone ↔ m ∈ layout.comments ∧ layout.Standalone m := by
  rw [standalone, List.mem_filter, decide_eq_true_iff]

theorem mem_runAbove {layout : Layout} {line : Nat} :
    m ∈ layout.runAbove line ↔ m ∈ layout.standalone ∧ m.InRun layout.standalone line := by
  rw [runAbove, List.mem_filter, decide_eq_true_iff]

/-- Beside a comment that does not begin its line there is a token on the line, or the line had one
before. -/
theorem exists_beside_ofItems (blanks : ∀ c, Item.blank c ∈ items → c ≠ '\n')
    (mem : m ∈ (ofItems p last items).comments) (other : m.ownLine = false) :
    last.isSome = true ∧ m.pos.line = p.line ∨
      ∃ t ∈ (ofItems p last items).tokens, t.auto = false ∧ t.pos.line ≤ m.pos.line ∧
        m.pos.line ≤ t.endLine := by
  induction items generalizing p last with
  | nil => cases mem
  | cons item items ih =>
    have blanks' : ∀ c, Item.blank c ∈ items → c ≠ '\n' :=
      fun c mem => blanks c (List.mem_cons_of_mem _ mem)
    cases item with
    | blank c =>
      have stays : ((Item.blank c).stop p).line = p.line := by
        show (p.step c).line = p.line
        rw [Position.step, if_neg (blanks c List.mem_cons_self)]
      exact stays ▸ ih blanks' mem
    | newline =>
      obtain ⟨none, _⟩ | ⟨t, token, beside⟩ := ih blanks' mem
      · cases none
      · exact .inr ⟨t, List.mem_append_right _ token, beside⟩
    | comment text =>
      have begun : last.isNone = false → last.isSome = true := Option.isNone_eq_false_iff.1
      rw [ofItems] at mem ⊢
      split at mem
      · next newline =>
        rw [if_pos newline]
        rcases List.mem_cons.1 mem with rfl | behind
        · exact .inl ⟨begun other, rfl⟩
        · obtain ⟨none, _⟩ | ⟨t, token, beside⟩ := ih blanks' behind
          · cases none
          · exact .inr ⟨t, List.mem_append_right _ token, beside⟩
      · next line =>
        rw [if_neg line]
        have stays : ((Item.comment text).stop p).line = p.line := by
          have none : text.toList.count '\n' = 0 :=
            List.count_eq_zero.2 fun mem => line (List.contains_iff_mem.2 mem)
          show (p.after text.toList).line = p.line
          rw [Position.line_after, none, Nat.add_zero]
        rcases List.mem_cons.1 mem with rfl | behind
        · exact .inl ⟨begun other, rfl⟩
        · exact stays ▸ ih blanks' behind
    | word lexeme =>
      obtain ⟨_, ends⟩ | ⟨t, token, beside⟩ := ih blanks' mem
      · have on := Item.line_le_stop (Item.word lexeme) p
        exact .inr ⟨_, List.mem_cons_self, rfl, ends ▸ on, Nat.le_of_eq ends⟩
      · exact .inr ⟨t, List.mem_cons_of_mem _ token, beside⟩

/-- The comments stand one behind the other: each ends at the latest on the line where the next starts. -/
theorem ends_ofItems (p : Position) (last : Option Lexeme) (items : List Item) :
    (ofItems p last items).comments.Pairwise fun m n => m.endLine ≤ n.pos.line := by
  induction items generalizing p last with
  | nil => exact .nil
  | cons item items ih =>
    have take : ∀ last (m : Comment), m.endLine = (item.stop p).line →
        (m :: (ofItems (item.stop p) last items).comments).Pairwise
          fun m n => m.endLine ≤ n.pos.line := by
      intro last m ends
      refine List.pairwise_cons.2 ⟨fun n mem => ?_, ih _ last⟩
      exact ends ▸ ((spans_ofItems _ last items).comments n mem).1
    cases item with
    | blank c => exact ih _ last
    | newline => exact ih _ none
    | comment text =>
      rw [ofItems]
      split
      · exact take none _ rfl
      · exact take last _ rfl
    | word lexeme => exact ih _ (some lexeme)

/-! ## Above a line -/

section Source

variable {source : String} {layout : Layout} {line : Nat}

/-- What stands alone begins its line. -/
theorem own_of_standalone (h : Layout.ofSource source = .ok layout) (mem : m ∈ layout.standalone) :
    m ∈ layout.own := by
  obtain ⟨comment, alone⟩ := mem_standalone.1 mem
  refine mem_own.2 ⟨comment, ?_⟩
  obtain ⟨rfl, -⟩ := ofItems_scan_of_ofSource h
  cases own : m.ownLine with
  | true => rfl
  | false =>
    have upright := pos_line_le_endLine comment
    obtain ⟨none, _⟩ | ⟨t, token, real, begins, ends⟩ :=
      exists_beside_ofItems (fun c => Item.ne_newline_of_mem_scan) comment own
    · cases none
    · have := alone t token real
      omega

theorem upright_own (h : Layout.ofSource source = .ok layout) :
    ∀ m ∈ layout.own, m.pos.line ≤ m.endLine := by
  intro m mem
  obtain ⟨rfl, -⟩ := ofItems_scan_of_ofSource h
  exact pos_line_le_endLine (mem_own.1 mem).1

theorem order_own (h : Layout.ofSource source = .ok layout) :
    layout.own.Pairwise fun m n => n.endLine ≤ m.pos.line := by
  obtain ⟨rfl, -⟩ := ofItems_scan_of_ofSource h
  exact List.pairwise_reverse.2 ((ends_ofItems .start none _).filter _)

/-- Comments of a source that are picked in order are known from their members. -/
theorem eq_of_sublist {ms ns : List Comment} (h : Layout.ofSource source = .ok layout)
    (among : ms.Sublist layout.comments) (among' : ns.Sublist layout.comments)
    (same : ∀ m, m ∈ ms ↔ m ∈ ns) : ms = ns := by
  have distinct := nodup_comments h
  have order := pairwise_comments h
  have perm : ms.Perm ns :=
    (List.perm_ext_iff_of_nodup (distinct.sublist among) (distinct.sublist among')).2 same
  refine perm.eq_of_pairwise (fun m n _ _ before behind => ?_) (order.sublist among)
    (order.sublist among')
  exact absurd rfl (before.trans behind).ne

/-- Looked up are comments of the source, in order. -/
theorem docComments_own_sublist (layout : Layout) (line : Nat) :
    (docComments line layout.own).Sublist layout.comments := by
  have among := docComments_sublist line layout.own
  rw [own, List.reverse_reverse] at among
  exact among.trans List.filter_sublist

theorem runAbove_sublist (line : Nat) : (layout.runAbove line).Sublist layout.comments :=
  List.filter_sublist.trans List.filter_sublist

end Source

/-- The comments that are looked up above a line end above where the next one starts. -/
theorem pairwise_docComments {ms : List Comment} (upright : ∀ m ∈ ms, m.pos.line ≤ m.endLine)
    (line : Nat) : (docComments line ms).Pairwise fun m n => m.endLine < n.pos.line := by
  induction ms generalizing line with
  | nil => exact .nil
  | cons m ms ih =>
    obtain ⟨_, later⟩ := List.forall_mem_cons.1 upright
    rw [docComments]
    split
    · refine List.pairwise_append.2 ⟨ih later _, List.pairwise_singleton _ _, fun n mem k last => ?_⟩
      rw [List.mem_singleton.1 last]
      exact endLine_lt_of_mem_docComments later mem
    · exact ih later line

/-- Above a line of a source, the group of the comments that are looked up is found. They are the run
there exactly if all of them stand alone and the comments of the run share no lines. -/
theorem docAbove_eq_runAbove_iff {source : String} {layout : Layout}
    (h : Layout.ofSource source = .ok layout) (line : Nat) :
    (Cursor.ofLayout layout).docAbove line =
        CommentGroup.ofComments? (docComments line layout.own) ∧
      (docComments line layout.own = layout.runAbove line ↔
        (∀ m ∈ docComments line layout.own, layout.Standalone m) ∧
          (layout.runAbove line).Pairwise fun m n => m.endLine < n.pos.line) := by
  refine ⟨Cursor.docAbove_eq _ line, ?_⟩
  have upright := upright_own h
  have among := docComments_own_sublist layout line
  constructor
  · intro same
    refine ⟨fun m mem => ?_, same ▸ pairwise_docComments upright line⟩
    exact (mem_standalone.1 (mem_runAbove.1 (same ▸ mem)).1).2
  · rintro ⟨alone, apart⟩
    have standalone : ∀ m ∈ docComments line layout.own, m ∈ layout.standalone :=
      fun m mem => mem_standalone.2 ⟨among.subset mem, alone m mem⟩
    have either : ∀ k ∈ layout.runAbove line, ∀ n ∈ layout.runAbove line,
        k = n ∨ k.endLine < n.pos.line ∨ n.endLine < k.pos.line := by
      intro k memK n memN
      exact List.Pairwise.forall_of_forall_of_flip
        (R := fun k n => k = n ∨ k.endLine < n.pos.line ∨ n.endLine < k.pos.line)
        (fun _ _ => .inl rfl) (apart.imp fun h => .inr (.inl h)) (apart.imp fun h => .inr (.inr h))
        memK memN
    refine eq_of_sublist h among (runAbove_sublist line) fun m => ⟨fun mem => ?_, fun mem => ?_⟩
    · exact mem_runAbove.2 ⟨standalone m mem, .of_mem_docComments upright standalone mem⟩
    · obtain ⟨own, run⟩ := mem_runAbove.1 mem
      refine run.mem_docComments upright (order_own h) (fun k memK _ => own_of_standalone h memK)
        standalone (fun k memK n memN runK runN => ?_) own
      exact either k (mem_runAbove.2 ⟨memK, runK⟩) n (mem_runAbove.2 ⟨memN, runN⟩)

/-- A comment of one line and one of two above a declaration, and another in front of a gap. -/
theorem docAbove_eq_runAbove_iff_lines :
    ∃ layout, Layout.ofSource "// a\n\n// b\n/* c\n*/\ntype A int" = .ok layout ∧
      (Cursor.ofLayout layout).docAbove 6 = some ⟨["// b", "/* c\n*/"]⟩ ∧
      (Cursor.ofLayout layout).docAbove 6 =
        CommentGroup.ofComments? (docComments 6 layout.own) ∧
      (docComments 6 layout.own = layout.runAbove 6 ↔
        (∀ m ∈ docComments 6 layout.own, layout.Standalone m) ∧
          (layout.runAbove 6).Pairwise fun m n => m.endLine < n.pos.line) := by
  have found : (Layout.ofSource "// a\n\n// b\n/* c\n*/\ntype A int").toOption.map
      (fun layout => (Cursor.ofLayout layout).docAbove 6) = some (some ⟨["// b", "/* c\n*/"]⟩) := by
    decide +kernel
  obtain ⟨layout, scanned, found⟩ := exists_of_toOption_map found
  exact ⟨layout, scanned, found, docAbove_eq_runAbove_iff scanned 6⟩

/-- Of two comments on the line above a declaration the first is not found; and one that a clause
follows on its line is found. -/
theorem docAbove_ne_runAbove :
    (∃ layout, Layout.ofSource "/* a */ /* b */\ntype A int" = .ok layout ∧
      (Cursor.ofLayout layout).docAbove 2 = some ⟨["/* b */"]⟩ ∧
      CommentGroup.ofComments? (layout.runAbove 2) = some ⟨["/* a */", "/* b */"]⟩) ∧
    ∃ layout, Layout.ofSource "/* c */ package p\ntype A int" = .ok layout ∧
      (Cursor.ofLayout layout).docAbove 2 = some ⟨["/* c */"]⟩ ∧ layout.runAbove 2 = [] := by
  have lost : (Layout.ofSource "/* a */ /* b */\ntype A int").toOption.map (fun layout =>
      ((Cursor.ofLayout layout).docAbove 2, CommentGroup.ofComments? (layout.runAbove 2))) =
      some (some ⟨["/* b */"]⟩, some ⟨["/* a */", "/* b */"]⟩) := by
    decide +kernel
  have taken : (Layout.ofSource "/* c */ package p\ntype A int").toOption.map (fun layout =>
      ((Cursor.ofLayout layout).docAbove 2, layout.runAbove 2)) =
      some (some ⟨["/* c */"]⟩, []) := by
    decide +kernel
  obtain ⟨layout, scanned, lost⟩ := exists_of_toOption_map lost
  obtain ⟨layout', scanned', taken⟩ := exists_of_toOption_map taken
  exact ⟨⟨layout, scanned, Prod.mk.inj lost⟩, layout', scanned', Prod.mk.inj taken⟩

end Layout

end Typings
