import Typings.Proofs.Behind.Productions
import Typings.Proofs.Joined.Files

/-!
# Comments behind members

A struct field, an element of an interface and a type specification each have the comment that stands
behind their last token on the line where it ends, before anything else is written, exactly if neither
that token nor the comment spans lines (`File.comment_eq_noteBehind_iff`): a tag that spans lines is
looked for on the line where it starts, and a comment that spans lines is where the line ends.
-/

namespace Typings

namespace Parser

/-! ## Last tokens -/

theorem forward_fieldNames : Forward fieldNames := by
  intro c c' names run
  rw [fieldNames, ask_bind] at run
  split at run
  · have more : Framed true (do let name ← ident; let names ← bounded moreNames; pure (name :: names))
        (do let name ← ident; let names ← bounded moreNames; pure (name :: names)) :=
      .bind .ident fun _ => .bind (.bounded fun _ _ le => .moreNames le) fun _ => .pure _
    exact more.forward run
  · obtain ⟨-, rfl⟩ := pure_eq_ok.1 run
    exact .refl c

theorem fieldTag_mayEnd : fieldTag.MayEnd := by
  intro c c' tag ended run
  rw [fieldTag, current_bind] at run
  split at run
  · next string =>
    obtain ⟨-, rfl⟩ := pure_eq_ok.1 run
    have ends : c.current.lexeme.endsStatement = true := by
      cases here : c.current.lexeme with
      | literal kind text => rfl
      | _ =>
        rw [here] at string
        cases string
    obtain ⟨ended', tokens⟩ := Ends.of_current ended ends
    exact ⟨ended', .inr tokens⟩
  · obtain ⟨-, rfl⟩ := pure_eq_ok.1 run
    exact ⟨ended, .inl rfl⟩

variable {ty : Parser TypeExpr}

/-- A field ends with its type or its tag, which may end a statement. -/
theorem structFieldWith_ends (ends : ty.Ends) : (structFieldWith ty).Ends := by
  apply Ends.ask
  intro doc
  apply Ends.after forward_fieldNames
  intro names
  apply ends.andThen
  intro type
  exact fieldTag_mayEnd.bind fun tag => MayEnd.commentBehind.bind fun _ => .pure _

/-- A chain ends with its last operand. -/
theorem operandsAfter_mayEnd {α : Type} {isOperator : Lexeme → Bool} {operand : Parser α}
    (ends : operand.Ends) (n : Nat) : (operandsAfter isOperator operand n).MayEnd := by
  induction n with
  | zero => exact (Ends.fail _).mayEnd
  | succ n ih =>
    apply MayEnd.bind (.ask _)
    intro t
    split
    · exact (Ends.advance fun _ => ends.andThen fun x => ih.bind fun xs => .pure _).mayEnd
    · exact .pure _

/-- A constraint ends with its type. -/
theorem constraintTerm_ends (ends : ty.Ends) : (constraintTerm ty).Ends := by
  apply Ends.ask
  intro tilde
  cases tilde with
  | true => exact .advance fun _ => ends.andThen fun _ => .pure _
  | false => exact ends

theorem constraintWith_ends (ends : ty.Ends) : (constraintWith ty).Ends := by
  apply (constraintTerm_ends ends).andThen
  intro first
  have more : (bounded (operandsAfter (· = .op .bar) (constraintTerm ty))).MayEnd :=
    fun c c' x => operandsAfter_mayEnd (constraintTerm_ends ends) _ c c' x
  exact more.bind fun _ => .pure _

/-- A member ends with its results, its parameters or its type. -/
theorem interfaceMemberWith_ends (h : Framed true ty ty) (brackets : ty.Brackets) (ends : ty.Ends) :
    (interfaceMemberWith ty).Ends := by
  apply Ends.ask
  intro doc
  apply Ends.ask
  intro method
  cases method with
  | true =>
    apply Ends.after Framed.ident.moves
    intro name
    exact (signatureWith_ends h brackets ends).andThen fun type =>
      MayEnd.commentBehind.bind fun _ => .pure _
  | false =>
    exact (constraintWith_ends ends).andThen fun type => MayEnd.commentBehind.bind fun _ => .pure _

end Parser

namespace Notable.Reads

variable {m : Notable} {c c' : Cursor}

/-- What is read is passed. -/
theorem forward (h : m.Reads c c') : c.Reaches c' := by
  cases m with
  | field f =>
    obtain ⟨n, run⟩ := h
    exact (Parser.Framed.structFieldWith (.typeWithin (Nat.le_refl n))
      (Parser.typeWithin_brackets n)).forward run
  | element f =>
    obtain ⟨n, run⟩ := h
    exact (Parser.Framed.interfaceMemberWith (.typeWithin (Nat.le_refl n))
      (Parser.typeWithin_brackets n)).forward run
  | typeSpec spec =>
    obtain ⟨doc, run⟩ := h
    exact (Parser.typeSpec_framed doc).moves run

/-- A member that is read ends with a token that may end a statement, the last one before the cursor. -/
theorem ends (h : m.Reads c c') (ended : c.IsEnded) :
    ∃ ts t, c.rest = ts ++ t :: c'.rest ∧ t.lexeme.endsStatement = true := by
  cases m with
  | field f =>
    obtain ⟨n, run⟩ := h
    exact (Parser.structFieldWith_ends (Parser.typeWithin_ends n) c c' f ended run).2
  | element f =>
    obtain ⟨n, run⟩ := h
    exact (Parser.interfaceMemberWith_ends (.typeWithin (Nat.le_refl n)) (Parser.typeWithin_brackets n)
      (Parser.typeWithin_ends n) c c' f ended run).2
  | typeSpec spec =>
    obtain ⟨doc, run⟩ := h
    exact (Parser.typeSpec_ends doc c c' spec ended run).2

end Notable.Reads

/-! ## Comments -/

/-- It is read in a source: at a place between its tokens, up to a token that is written and ends a
statement. -/
structure Visit.On (v : Visit) (layout : Layout) : Prop where
  reads : v.notable.Reads v.start v.stop.dropCommentBehind
  tokens : layout.tokens = v.start.passed.reverse ++ v.start.rest
  passes : ∃ ts, v.start.rest = ts ++ v.last :: v.stop.rest
  stop : v.stop.stop = layout.last
  ends : v.last.lexeme.endsStatement = true

/-- A visit of a cursor over the tokens of a layout is one on the layout. -/
theorem Visit.Valid.on {v : Visit} {layout : Layout} (h : v.Valid) {ts : List Token}
    (rest : layout.tokens = ts ++ v.stop.rest) (passed : v.stop.passed = ts.reverse)
    (stop : v.stop.stop = layout.last) : v.On layout := by
  have reaches := h.reads.forward
  have ended : v.start.IsEnded := by
    rw [Cursor.IsEnded, ← reaches.stop]
    show v.stop.stop.lexeme = .eof
    rw [stop]
    rfl
  obtain ⟨us, t, tokens, ends⟩ := h.reads.ends ended
  obtain ⟨us', tokens', passed'⟩ := reaches.tokens
  have same : us' = us ++ [t] := by
    rw [tokens, ← List.singleton_append, ← List.append_assoc] at tokens'
    exact (List.append_cancel_right tokens').symm
  have front : v.stop.passed = t :: (us.reverse ++ v.start.passed) := by
    have all : v.stop.passed = us'.reverse ++ v.start.passed := passed'
    rw [all, same, List.reverse_append]
    rfl
  have last : v.last = t := by
    rw [Visit.last, Cursor.prev, front]
    rfl
  refine ⟨h.reads, ?_, ⟨us, ?_⟩, stop, last ▸ ends⟩
  · have before : ts = v.start.passed.reverse ++ (us ++ [t]) := by
      rw [← List.reverse_reverse ts, ← passed, front]
      simp
    rw [rest, before, tokens, List.append_assoc, List.append_assoc]
    rfl
  · rw [last]
    exact tokens

/-- A comment as a group of its own. -/
def Comment.group (m : Comment) : CommentGroup := ⟨[m.text]⟩

/-- The token is on one line, and the comment too. -/
def Comment.IsFoundBehind (m : Comment) (t : Token) : Prop :=
  t.endLine = t.pos.line ∧ m.endLine = m.pos.line

instance (m : Comment) (t : Token) : Decidable (m.IsFoundBehind t) :=
  inferInstanceAs (Decidable (t.endLine = t.pos.line ∧ m.endLine = m.pos.line))

/-- At a stop of a walk through a source, the comment behind the token just passed is claimed, if it is
found. -/
theorem Cursor.Walks.commentBehind_eq {source : String} {layout : Layout} {stops : List Cursor}
    {firm : Bool} {c' s : Cursor} (scanned : Layout.ofSource source = .ok layout)
    (walks : Walks false (.ofLayout layout) stops firm c') (mem : s ∈ stops)
    (ends : s.prev.lexeme.endsStatement = true) :
    s.commentBehind = ((layout.noteBehind s.prev).filter fun m => m.IsFoundBehind s.prev).map
      Comment.group := by
  obtain ⟨ts, rest, passed, stop, -, some⟩ := walks.tokens_of_mem mem
  have order : ((Cursor.ofLayout layout).passed.reverse ++ (Cursor.ofLayout layout).rest).Pairwise
      fun t u => t.pos.Precedes u.pos := Layout.pairwise_tokens scanned
  obtain ⟨us, t, rfl⟩ := (List.eq_nil_or_concat ts).resolve_left (some rfl)
  rw [List.concat_eq_append] at rest passed
  have prev : s.prev = t := by
    rw [Cursor.prev, passed, List.reverse_append]
    rfl
  have tokens : layout.tokens = us ++ t :: s.rest := by
    rw [← List.singleton_append, ← List.append_assoc]
    exact rest
  have found : (Cursor.ofLayout layout).trailing.find? s.trails = _ :=
    Layout.find?_trails_eq scanned tokens stop prev (prev ▸ ends)
  rw [Cursor.commentBehind, walks.find?_trailing (fun firm => by cases firm) order mem, found, prev]
  by_cases upright : t.endLine = t.pos.line
  · rw [if_pos upright]
    simp only [Comment.IsFoundBehind, upright, true_and]
    rfl
  · rw [if_neg upright]
    cases layout.noteBehind t with
    | none => rfl
    | some m => simp [Option.filter_some, Comment.IsFoundBehind, upright]

/-- A filter leaves an option as it is if what is in it passes. -/
theorem map_filter_eq_map_iff {α β : Type} {f : α → β} {p : α → Prop} [DecidablePred p] (x? : Option α) :
    (x?.filter fun x => p x).map f = x?.map f ↔ ∀ x, x? = some x → p x := by
  cases x? with
  | none => simp
  | some x =>
    by_cases here : p x
    · simp [here, Option.filter_some]
    · simp [here, Option.filter_some]

/-- In a file that is read from a source, the things that a comment may stand behind are each read up to
a token of their own. Their comment is the one behind that token if it is found, and else there is none;
so it is the one behind that token exactly if that is found or there is none. -/
theorem File.comment_eq_noteBehind_iff {source : String} {file : File}
    (h : File.parse source = .ok file) :
    ∃ (layout : Layout) (visits : List Visit), Layout.ofSource source = .ok layout ∧
      visits.map Visit.notable = file.notables ∧
      visits.Pairwise (fun v w => v.stop.passed.length < w.stop.passed.length) ∧
      ∀ v ∈ visits, v.On layout ∧
        v.notable.comment = ((layout.noteBehind v.last).filter fun m => m.IsFoundBehind v.last).map
          Comment.group ∧
        (v.notable.comment = (layout.noteBehind v.last).map Comment.group ↔
          ∀ m, layout.noteBehind v.last = some m → m.IsFoundBehind v.last) := by
  obtain ⟨layout, c, scanned, run⟩ := Parser.run_eq_ok.1 h
  obtain ⟨visits, stops, walks, sub, valid, made, -⟩ :=
    Parser.Visits.file _ c file run (Cursor.isEnded_ofLayout layout)
  refine ⟨layout, visits, scanned, made.symm, ?_, fun v mem => ?_⟩
  · have apart : (visits.map Visit.stop).Pairwise fun s s' => s.passed.length < s'.passed.length :=
      walks.pairwise.sublist sub
    rw [List.pairwise_map] at apart
    exact apart
  · have stop := sub.subset (List.mem_map_of_mem mem)
    obtain ⟨ts, rest, passed, last, -, -⟩ := walks.tokens_of_mem stop
    have on := (valid v mem).on rest (passed.trans (List.append_nil _)) last
    have comment := (valid v mem).comment_eq.trans (walks.commentBehind_eq scanned stop on.ends)
    refine ⟨on, comment, ?_⟩
    rw [comment]
    exact map_filter_eq_map_iff _

/-- Comments behind a type, behind a tag and behind a struct, and a field without one. -/
theorem File.comment_eq_noteBehind_iff_struct :
    let source := "type A struct \x7b\n\tX int // x\n\tY, Z B \"k\" /* y */ // z\n\tC\n\x7d // a"
    ∃ (file : File) (layout : Layout) (visits : List Visit), File.parse source = .ok file ∧
      Layout.ofSource source = .ok layout ∧ visits.map Visit.notable = file.notables ∧
      file.notables.map Notable.comment =
        [some ⟨["// x"]⟩, some ⟨["/* y */"]⟩, none, some ⟨["// a"]⟩] ∧
      ∀ v ∈ visits, v.On layout ∧
        (v.notable.comment = (layout.noteBehind v.last).map Comment.group ↔
          ∀ m, layout.noteBehind v.last = some m → m.IsFoundBehind v.last) := by
  intro source
  have comments : (File.parse source).toOption.map (fun file => file.notables.map Notable.comment) =
      some [some ⟨["// x"]⟩, some ⟨["/* y */"]⟩, none, some ⟨["// a"]⟩] := by
    decide +kernel
  obtain ⟨file, h, comments⟩ := exists_of_toOption_map comments
  obtain ⟨layout, visits, scanned, all, -, each⟩ := File.comment_eq_noteBehind_iff h
  exact ⟨file, layout, visits, h, scanned, all, comments,
    fun v mem => ⟨(each v mem).1, (each v mem).2.2⟩⟩

/-- The texts of the comments behind the tokens of a source that are such a word. -/
def Layout.notesBehind (layout : Layout) (w : Lexeme) : List (Option String) :=
  (layout.tokens.filter fun t => t.lexeme = w).map fun t => (layout.noteBehind t).map Comment.text

/-- A comment behind a tag that spans lines, and one behind a type that spans lines itself: there is one,
but the field has none. -/
theorem File.comment_lost :
    let tagged := "type A struct \x7b\n\tX int \x60a\nb\x60 // x\n\x7d"
    let block := "type A struct \x7b\n\tX int /* x\n*/\n\x7d"
    (∃ file layout, File.parse tagged = .ok file ∧ Layout.ofSource tagged = .ok layout ∧
      file.notables.map Notable.comment = [none, none] ∧
      layout.notesBehind (.literal .string "\x60a\nb\x60") = [some "// x"]) ∧
    ∃ file layout, File.parse block = .ok file ∧ Layout.ofSource block = .ok layout ∧
      file.notables.map Notable.comment = [none, none] ∧
      layout.notesBehind (.ident "int") = [some "/* x\n*/"] := by
  intro tagged block
  have lost : (File.parse tagged).toOption.map (fun file => file.notables.map Notable.comment) =
      some [none, none] := by
    decide +kernel
  have there : (Layout.ofSource tagged).toOption.map
      (Layout.notesBehind · (.literal .string "\x60a\nb\x60")) = some [some "// x"] := by
    decide +kernel
  have lost' : (File.parse block).toOption.map (fun file => file.notables.map Notable.comment) =
      some [none, none] := by
    decide +kernel
  have there' : (Layout.ofSource block).toOption.map (Layout.notesBehind · (.ident "int")) =
      some [some "/* x\n*/"] := by
    decide +kernel
  obtain ⟨file, parsed, lost⟩ := exists_of_toOption_map lost
  obtain ⟨layout, scanned, there⟩ := exists_of_toOption_map there
  obtain ⟨file', parsed', lost'⟩ := exists_of_toOption_map lost'
  obtain ⟨layout', scanned', there'⟩ := exists_of_toOption_map there'
  exact ⟨⟨file, layout, parsed, scanned, lost, there⟩,
    file', layout', parsed', scanned', lost', there'⟩

end Typings
