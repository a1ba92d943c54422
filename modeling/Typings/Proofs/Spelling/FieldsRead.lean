import Typings.Proofs.Spelling.TypesRead

/-!
# Lists of fields are read back

The entries of a list of parameters or results, the fields of a struct, and the members of an
interface are read as they are spelled, given a parser that reads the types in them.
-/

namespace Typings

open Typings.Parser

/-! ## Entries -/

/-- The bracket with which a type begins is closed directly before another type. -/
theorem Spells.closesAheadOfType {x : TypeExpr} {ws : List Lexeme} (h : Spells (.expr .type x) ws)
    (bracket : ws.headD .eof = .op .leftBracket) (rest : List Lexeme) :
    closesAheadOfType 0 (ws ++ rest) = true := by
  have starts : ∀ {y vs}, Spells (.expr .type y) vs →
      ((vs ++ rest).headD .eof).startsType = true := by
    intro y vs spells
    obtain ⟨w, us, rfl, begins⟩ := spells.opens.exists_cons rfl
    exact begins
  cases h with
  | slice elt => exact (Balanced.nil.closes _).trans (starts elt)
  | counted elt =>
    have dots : Balanced [.op .ellipsis] := .cons nofun nofun .nil
    exact (dots.closes _).trans (starts elt)
  | array size elt =>
    rw [List.append_assoc]
    exact (size.balanced.closes _).trans (starts elt)
  | typeName base => cases base <;> cases bracket
  | generic base => cases base <;> cases bracket
  | _ => cases bracket

/-- A type that no other type follows is not taken for a name and an array type. -/
theorem Spells.showsNamedArray {x : TypeExpr} {ws : List Lexeme} (h : Spells (.expr .type x) ws)
    {rest : List Lexeme} (ends : EndsType rest) : showsNamedArray (ws ++ rest) = false := by
  cases h with
  | typeName base =>
    cases base with
    | name =>
      show (true && decide (rest.headD .eof = .op .leftBracket) && _) = false
      rw [decide_eq_false (ends.head_ne rfl)]
      rfl
    | selector => rfl
  | generic base args =>
    cases base with
    | name =>
      rw [List.append_assoc, List.append_assoc]
      show (true && true && Typings.closesAheadOfType 0 (_ :: (_ ++ (_ :: rest)))) = false
      exact (args.balanced.closes rest).trans ends.1
    | selector => rfl
  | _ => rfl

/-- An entry is read, whether it has dots or not. -/
def EntryReads (x : TypeExpr) (ws : List Lexeme) : Prop :=
  (∃ y us, x = .variadic y ∧ ws = .op .ellipsis :: us ∧ TypeReads y.bare us) ∨
    Spells (.expr .type x) ws ∧ TypeReads x.bare ws

section Entries

variable {ty : Parser TypeExpr} {x : TypeExpr} {name : String} {w v : Lexeme}
  {us ws vs rest : List Lexeme}

/-- Behind three dots, a type is read as the type of many arguments. -/
theorem orVariadic_reads {otherwise : Parser TypeExpr} (types : ty.ReadsTypes us.length)
    (h : TypeReads x us) (ends : EndsType rest) :
    (orVariadic ty otherwise).Reads (.op .ellipsis :: us ++ rest) (.variadic x) rest :=
  .isAt (decide_eq_true rfl) <| .advance fun _ _ =>
    .bind (types.reads h (Nat.le_refl _) ends) (.pure _ _)

/-- A name alone is read as a type, and as a constraint too if no bar follows it. -/
theorem entryType_reads_name {n : Nat} (types : ty.ReadsTypes n) (some : 1 ≤ n) (name : String)
    (dot : rest.headD .eof ≠ .op .dot) (bar : rest.headD .eof ≠ .op .bar)
    (stops : showsTypeArgs rest = false) (constraint : Bool) :
    (entryType ty constraint).Reads (.ident name :: rest) (.name name) rest := by
  have alone := types.reads_name name some rest dot stops
  cases constraint with
  | false => exact alone
  | true =>
    have term : (constraintTerm ty).Reads (.ident name :: rest) (.name name) rest :=
      .isAt (decide_eq_false nofun) alone
    have none : (operandsAfter (· = .op .bar) (constraintTerm ty) (rest.length + 1)).Reads rest []
        rest := by
      refine .current fun t here => ?_
      rw [here, if_neg fun shown => bar (of_decide_eq_true shown)]
      exact .pure _ _
    exact .bind term <| .bind (.bounded none) (.pure _ _)

section NameAndType

variable {close : Lexeme} {constraint : Bool}

/-- A name alone, before a comma. -/
theorem nameAndType_reads_alone {n : Nat} (types : ty.ReadsTypes n) (some : 1 ≤ n) :
    (nameAndType ty close constraint).Reads (.ident name :: .op .comma :: vs) (none, .name name)
      (.op .comma :: vs) := by
  have alone : (entryType ty constraint).Reads (.ident name :: .op .comma :: vs) (.name name)
      (.op .comma :: vs) := by
    apply entryType_reads_name types some
    · exact nofun
    · exact nofun
    · rfl
  refine .isAt (decide_eq_false nofun) <|
    .ask (fun c clear ahead => by rw [clear.showsNamedArray, ahead]) <|
      .bind alone <| .current fun t here => ?_
  rw [here]
  exact .pure _ _

/-- A name and the array type that it belongs to. Behind the name a type is read, and no more than a
type, even where a constraint may stand. -/
theorem nameAndType_reads_array (name : String) (types : ty.ReadsTypes ws.length)
    (spells : Spells (.expr .type x) ws) (reads : TypeReads x.bare ws)
    (bracket : ws.headD .eof = .op .leftBracket) (ends : EndsType rest) :
    (nameAndType ty close constraint).Reads (.ident name :: ws ++ rest) (some name, x.bare) rest := by
  have closed := spells.closesAheadOfType bracket rest
  obtain ⟨w, us, rfl, _⟩ := spells.opens.exists_cons rfl
  have array : showsNamedArray (.ident name :: w :: us ++ rest) = true := by
    show (true && decide (w = _) && closesAheadOfType 0 (w :: us ++ rest)) = true
    rw [show w = .op .leftBracket from bracket] at closed ⊢
    exact closed
  have type := types.reads reads (Nat.le_refl _) ends
  refine .isAt (decide_eq_false nofun) <|
    .ask (fun c clear ahead => by rw [clear.showsNamedArray, ahead, array]) <| .bind .ident ?_
  exact .bind type (.pure _ _)

/-- A name and what it belongs to, which is no array type. -/
theorem nameAndType_reads_other {n : Nat} (name : String) (types : ty.ReadsTypes n) (some : 1 ≤ n)
    (begins : Phrase.beginsExpr .constraint w = true) (bracket : w ≠ .op .leftBracket)
    (closes : Phrase.beginsExpr .constraint close = false)
    (type : (entryType ty constraint).Reads (w :: us) x rest) :
    (nameAndType ty close constraint).Reads (.ident name :: w :: us) (Option.some name, x) rest := by
  have array : showsNamedArray (.ident name :: w :: us) = false := by
    show (true && decide (w = _) && _) = false
    rw [decide_eq_false bracket]
    rfl
  have args : showsTypeArgs (w :: us) = false := by
    show (decide (w = _) && _) = false
    rw [decide_eq_false bracket]
    rfl
  have alone := entryType_reads_name types some name (ne_of_begins begins rfl)
    (ne_of_begins begins rfl) args constraint
  refine .isAt (decide_eq_false nofun) <|
    .ask (fun c clear ahead => by rw [clear.showsNamedArray, ahead, array]) <|
      .bind alone <| .current fun t here => ?_
  change t.lexeme = w at here
  have behind : (decide (t.lexeme = .op .comma) || decide (t.lexeme = close)) = false := by
    rw [here, decide_eq_false (ne_of_begins begins rfl), decide_eq_false (ne_of_begins begins closes)]
    rfl
  rw [behind]
  exact .bind (.isAt (decide_eq_false (ne_of_begins begins rfl)) type) (.pure _ _)

end NameAndType

/-- A name and the type that it belongs to. -/
theorem nameAndType_reads_named (name : String) (types : ty.ReadsTypes ws.length) (some : ws ≠ [])
    (h : EntryReads x ws) (ends : EndsType rest) :
    (nameAndType ty (.op .rightParen) false).Reads (.ident name :: ws ++ rest)
      (Option.some name, x.bare) rest := by
  have long : 1 ≤ ws.length := List.length_pos_iff.2 some
  obtain ⟨y, us, rfl, rfl, reads⟩ | ⟨spells, reads⟩ := h
  · have alone := types.reads_name name long (.op .ellipsis :: us ++ rest) nofun rfl
    refine .isAt (decide_eq_false nofun) <|
      .ask (fun c clear ahead => by rw [clear.showsNamedArray, ahead]) <|
        .bind alone <| .current fun t here => ?_
    rw [here]
    exact .bind (orVariadic_reads (types.mono (Nat.le_succ _)) reads ends) (.pure _ _)
  · by_cases bracket : ws.headD .eof = .op .leftBracket
    · exact nameAndType_reads_array name types spells reads bracket ends
    · have type := types.reads reads (Nat.le_refl _) ends
      obtain ⟨w, us, rfl, begins⟩ := spells.opens.exists_cons rfl
      exact nameAndType_reads_other name types long (Bool.or_eq_true_iff.2 (.inl begins)) bracket rfl
        type

/-- A type without a name, before a comma or the end of the list. -/
theorem nameAndType_reads_unnamed (types : ty.ReadsTypes ws.length) (h : EntryReads x ws)
    (vs : List Lexeme) (hv : v = .op .comma ∨ v = .op .rightParen) :
    (nameAndType ty (.op .rightParen) false).Reads (ws ++ v :: vs) (none, x.bare) (v :: vs) := by
  have ends : EndsType (v :: vs) := by
    rcases hv with rfl | rfl <;> exact ⟨rfl, nofun⟩
  obtain ⟨y, us, rfl, rfl, reads⟩ | ⟨spells, reads⟩ := h
  · exact .isAt (decide_eq_true rfl) <|
      .bind (orVariadic_reads (types.mono (Nat.le_succ _)) reads ends) (.pure _ _)
  · have type := types.reads reads (Nat.le_refl _) ends
    have array := spells.showsNamedArray ends
    obtain ⟨w, us, rfl, begins⟩ := spells.opens.exists_cons rfl
    refine .isAt (decide_eq_false (ne_of_begins begins rfl)) <|
      .ask (fun c clear ahead => by rw [clear.showsNamedArray, ahead, array]) <| .bind type ?_
    cases hx : x.bare with
    | name n =>
      refine .current fun t here => ?_
      rw [here]
      rcases hv with rfl | rfl <;> exact .pure _ _
    | _ => exact .pure _ _

/-- An entry that is read begins as entries do. -/
theorem EntryReads.opens (h : EntryReads x ws) :
    ∃ w us, ws = w :: us ∧ Phrase.beginsExpr .entry w = true := by
  obtain ⟨y, us, rfl, rfl, _⟩ | ⟨spells, _⟩ := h
  · exact ⟨_, _, rfl, rfl⟩
  · obtain ⟨w, us, rfl, begins⟩ := spells.opens.exists_cons rfl
    exact ⟨w, us, rfl, Bool.or_eq_true_iff.2 (.inl begins)⟩

/-- Entries with commas between them are read up to a closing parenthesis. -/
def EntriesRead (ty : Parser TypeExpr) (es : List Entry) (ws : List Lexeme) : Prop :=
  ∀ m, ws.length < m → ∀ rest,
    (entriesUntil (.op .rightParen) (nameAndType ty (.op .rightParen) false) m).Reads
      (ws ++ .op .rightParen :: rest) es (.op .rightParen :: rest)

/-- The last entry of a list. -/
theorem entriesRead_one (name : Option String) (types : ty.ReadsTypes ws.length)
    (h : EntryReads x ws) :
    EntriesRead ty [⟨name, x.bare, none⟩] ((name.map Lexeme.ident).toList ++ ws) := by
  intro m lt rest
  obtain ⟨m, rfl⟩ := Nat.exists_eq_succ_of_ne_zero (Nat.ne_of_gt (Nat.zero_lt_of_lt lt))
  obtain ⟨w, us, same, begins⟩ := h.opens
  cases name with
  | none =>
    have first := nameAndType_reads_unnamed types h rest (.inr rfl)
    rw [same] at first ⊢
    exact entriesUntil_reads_one (ne_of_begins begins rfl) nofun nofun first
  | some name =>
    have closing : EndsType (.op .rightParen :: rest) := ⟨rfl, nofun⟩
    have first := nameAndType_reads_named name types (by rw [same]; exact nofun) h closing
    exact entriesUntil_reads_one nofun nofun nofun first

/-- An entry with others behind it. -/
theorem entriesRead_more (name : Option String) {es : List Entry}
    (types : ty.ReadsTypes ws.length)
    (h : EntryReads x ws) (begins : Phrase.beginsExpr .entry v = true)
    (k : EntriesRead ty es (v :: vs)) :
    EntriesRead ty (⟨name, x.bare, none⟩ :: es)
      ((name.map Lexeme.ident).toList ++ ws ++ .op .comma :: v :: vs) := by
  intro m lt rest
  obtain ⟨m, rfl⟩ := Nat.exists_eq_succ_of_ne_zero (Nat.ne_of_gt (Nat.zero_lt_of_lt lt))
  have others := k m (by simp only [List.length_append, List.length_cons] at lt ⊢; omega) rest
  have next : (v :: vs ++ .op .rightParen :: rest).headD .eof ≠ .op .semicolon :=
    ne_of_begins begins rfl
  obtain ⟨w, us, same, begins'⟩ := h.opens
  rw [List.append_assoc]
  cases name with
  | none =>
    have first := nameAndType_reads_unnamed types h (v :: vs ++ .op .rightParen :: rest) (.inl rfl)
    rw [same] at first ⊢
    exact entriesUntil_reads_cons (ne_of_begins begins' rfl) next first others
  | some name =>
    have comma : EndsType (.op .comma :: (v :: vs ++ .op .rightParen :: rest)) := ⟨rfl, nofun⟩
    have first := nameAndType_reads_named name types (by rw [same]; exact nofun) h comma
    exact entriesUntil_reads_cons nofun next first others

/-- Further names in front of a named entry are entries of their own. -/
theorem entriesUntil_reads_names {close : Lexeme} {constraint : Bool} {n k : Nat}
    (types : ty.ReadsTypes k) (some : 1 ≤ k) (closes : close.isIdent = false) {es : List Entry}
    (names : List String)
    (last : (entriesUntil close (nameAndType ty close constraint) n).Reads (.ident name :: us) es
      vs) :
    (entriesUntil close (nameAndType ty close constraint) (names.length + n)).Reads
      ((names.flatMap fun n => [.ident n, .op .comma]) ++ .ident name :: us)
      ((names.map fun n => ⟨none, .name n, none⟩) ++ es) vs := by
  induction names with
  | nil =>
    rw [List.length_nil, Nat.zero_add]
    exact last
  | cons first names ih =>
    have start : Lexeme.ident first ≠ close := by
      rintro rfl
      cases closes
    have next : ((names.flatMap fun n => [Lexeme.ident n, .op .comma]) ++
        .ident name :: us).headD .eof ≠ .op .semicolon := by
      cases names <;> exact nofun
    rw [List.length_cons, Nat.add_right_comm]
    exact entriesUntil_reads_cons start next (nameAndType_reads_alone types some) ih

/-- Names with commas before an entry are read as entries of their own. -/
theorem entriesRead_names {n : Nat} (types : ty.ReadsTypes n) (some : 1 ≤ n) {es : List Entry}
    (names : List String) (k : EntriesRead ty es (.ident name :: vs)) :
    EntriesRead ty ((names.map fun n => ⟨none, .name n, none⟩) ++ es)
      ((names.flatMap fun n => [.ident n, .op .comma]) ++ .ident name :: vs) := by
  intro m lt rest
  have each : names.length ≤ (names.flatMap fun n => [Lexeme.ident n, .op .comma]).length :=
    length_le_flatMap (fun n => List.cons_ne_nil (Lexeme.ident n) [.op .comma]) names
  rw [List.length_append] at lt
  obtain ⟨m, rfl⟩ : ∃ k, m = names.length + k := ⟨m - names.length, by omega⟩
  have all := entriesUntil_reads_names types some rfl names (k m (by omega) rest)
  rwa [List.append_assoc]

/-- The entries of the last field of a list. -/
theorem entriesRead_field (names : List String) (types : ty.ReadsTypes ws.length)
    (h : EntryReads x ws) :
    EntriesRead ty (entriesOf { names := names, type := x.bare }) (spellNames names ++ ws) := by
  rcases List.eq_nil_or_concat names with rfl | ⟨init, last, rfl⟩
  · exact entriesRead_one none types h
  · obtain ⟨w, us, same, _⟩ := h.opens
    have one := entriesRead_one (some last) types h
    have all := entriesRead_names types (by rw [same]; exact Nat.succ_pos _) init one
    rw [List.concat_eq_append, spellNames_concat, entriesOf, List.append_assoc]
    simpa using all

/-- The entries of a field are read, its names before its type. -/
theorem entriesRead_fields (names : List String) {es : List Entry} (types : ty.ReadsTypes ws.length)
    (h : EntryReads x ws) (begins : Phrase.beginsExpr .entry v = true)
    (k : EntriesRead ty es (v :: vs)) :
    EntriesRead ty (entriesOf { names := names, type := x.bare } ++ es)
      (spellNames names ++ ws ++ .op .comma :: v :: vs) := by
  rcases List.eq_nil_or_concat names with rfl | ⟨init, last, rfl⟩
  · exact entriesRead_more none types h begins k
  · obtain ⟨w, us, same, _⟩ := h.opens
    have one := entriesRead_more (some last) types h begins k
    have all := entriesRead_names types (by rw [same]; exact Nat.succ_pos _) init one
    rw [List.concat_eq_append, spellNames_concat, entriesOf, List.append_assoc, List.append_assoc,
      List.append_assoc]
    simpa using all

theorem paramsWith_reads_nil : (paramsWith ty).Reads (.op .leftParen :: .op .rightParen :: rest) []
    rest :=
  .expect fun _ => .bind (.passSemis nofun) <|
    .bind (.bounded (.isAt (decide_eq_true rfl) (.pure _ _))) <| .expect fun _ => .pure _ _

/-- A parameter list is read as its entries are, and grouped as they are. -/
theorem paramsWith_reads {fields : List Field} {es : List Entry}
    (begins : Phrase.beginsExpr .entry w = true) (h : EntriesRead ty es (w :: us))
    (grouped : fieldsOf es = .ok fields) :
    (paramsWith ty).Reads (.op .leftParen :: w :: us ++ [.op .rightParen] ++ rest) fields rest := by
  rw [List.append_assoc]
  have entries := h ((w :: us ++ .op .rightParen :: rest).length + 1)
    (by rw [List.length_append]; omega) rest
  refine .expect fun _ => .bind (.passSemis (ne_of_begins begins rfl)) <|
    .bind (.bounded entries) <| .expect fun _ => ?_
  rw [grouped]
  exact .pure _ _

/-! ## Results -/

/-- Where a type ends there is no result. -/
theorem resultsWith_reads_nil (ends : EndsType rest) : (resultsWith ty).Reads rest [] rest := by
  refine .isAt (decide_eq_false (ends.head_ne rfl)) <| .current fun t here => ?_
  rw [here, ends.1]
  exact .pure _ _

theorem resultsWith_reads_params {fields : List Field}
    (h : (paramsWith ty).Reads (.op .leftParen :: us) fields rest) :
    (resultsWith ty).Reads (.op .leftParen :: us) fields rest := .isAt (decide_eq_true rfl) h

/-- A type without parentheses is read as the only result. -/
theorem resultsWith_reads_bare (starts : w.startsType = true) (paren : w ≠ .op .leftParen)
    (types : ty.ReadsTypes (w :: us).length) (h : TypeReads x (w :: us)) (ends : EndsType rest) :
    (resultsWith ty).Reads (w :: us ++ rest) [{ names := [], type := x }] rest := by
  refine .isAt (decide_eq_false paren) <| .current fun t here => ?_
  rw [show t.lexeme = w from here, starts]
  exact .bind (types.reads h (Nat.le_refl _) ends) (.pure _ _)

end Entries

/-! ## Struct fields -/

/-- A type with its tag and a semicolon behind it is not taken for a field's name. -/
theorem Spells.showsFieldName {x : TypeExpr} {ws : List Lexeme} (h : Spells (.expr .type x) ws)
    (tag : Option String) (vs : List Lexeme) :
    showsFieldName (ws ++ (spellTag tag ++ .op .semicolon :: vs)) = false := by
  have ends : ((spellTag tag ++ .op .semicolon :: vs).headD .eof).startsType = false := by
    cases tag <;> rfl
  cases h with
  | typeName base =>
    cases base with
    | name => cases tag <;> rfl
    | selector => rfl
  | generic base args =>
    cases base with
    | name =>
      rw [List.append_assoc, List.append_assoc]
      exact (args.balanced.closes _).trans ends
    | selector => rfl
  | _ => rfl

/-- A name before a type is taken for a field's name. -/
theorem Spells.showsFieldName_names {x : TypeExpr} {ws : List Lexeme}
    (h : Spells (.expr .type x) ws) (name : String) (names : List String) (rest : List Lexeme) :
    Typings.showsFieldName (spellNames (name :: names) ++ (ws ++ rest)) = true := by
  rw [spellNames_cons]
  cases names with
  | cons => rfl
  | nil =>
    have closed := fun bracket => h.closesAheadOfType bracket rest
    obtain ⟨w, us, rfl, begins⟩ := h.opens.exists_cons rfl
    have starts : w.startsType = true := begins
    unfold Typings.showsFieldName
    split
    case h_5 here => exact closed here
    case h_6 => rfl
    all_goals
      rename_i here
      rw [show w = _ from here] at starts
      cases starts

section Members

variable {ty : Parser TypeExpr} {x : TypeExpr} {fields : List Field} {name : String} {w : Lexeme}
  {us ws vs rest : List Lexeme}

/-- The names of a field are read up to its type. -/
theorem fieldNames_reads {names : List String} (comma : rest.headD .eof ≠ .op .comma)
    (shows : showsFieldName (spellNames names ++ rest) = !names.isEmpty) :
    fieldNames.Reads (spellNames names ++ rest) names rest := by
  refine .ask (fun c clear ahead => by rw [clear.showsFieldName, ahead, shows]) ?_
  cases names with
  | nil => exact .pure _ _
  | cons name names =>
    rw [spellNames_cons]
    have bound : names.length <
        ((names.flatMap fun n => [Lexeme.op .comma, .ident n]) ++ rest).length + 1 := by
      have := length_le_flatMap (fun n => List.cons_ne_nil (Lexeme.op .comma) [.ident n]) names
      rw [List.length_append]
      omega
    exact .bind .ident <| .bind (.bounded (moreNames_reads comma bound)) (.pure _ _)

/-- A tag is read if there is one. -/
theorem fieldTag_reads {tag : Option String} :
    fieldTag.Reads (spellTag tag ++ .op .semicolon :: vs) tag (.op .semicolon :: vs) := by
  refine .current fun t here => ?_
  cases tag with
  | none =>
    rw [here]
    exact .pure _ _
  | some text =>
    rw [here]
    exact .advance fun _ _ => .pure _ _

/-- A field, given what shows of its names and how its tag is read. -/
theorem structFieldWith_reads_tagged {names : List String} {tag : Option String}
    (types : ty.ReadsTypes ws.length) (spells : Spells (.expr .type x) ws) (h : TypeReads x.bare ws)
    (shows : showsFieldName (spellNames names ++ (ws ++ vs)) = !names.isEmpty) (ends : EndsType vs)
    (tagged : fieldTag.Reads vs tag rest) :
    (structFieldWith ty).Reads (spellNames names ++ (ws ++ vs))
      { names := names, type := x.bare, tag := tag } rest := by
  have comma : (ws ++ vs).headD .eof ≠ .op .comma := by
    obtain ⟨w, us, rfl, begins⟩ := spells.opens.exists_cons rfl
    exact ne_of_begins begins rfl
  exact .bind .docHere <| .bind (fieldNames_reads comma shows) <|
    .bind (types.reads h (Nat.le_refl _) ends) <| .bind tagged <|
      .bind .commentBehind (.pure _ _)

/-- A field of a struct is read with its names, its type and its tag. -/
theorem structFieldWith_reads {names : List String} {tag : Option String}
    (types : ty.ReadsTypes ws.length) (spells : Spells (.expr .type x) ws)
    (h : TypeReads x.bare ws) :
    (structFieldWith ty).Reads (spellNames names ++ (ws ++ (spellTag tag ++ .op .semicolon :: vs)))
      { names := names, type := x.bare, tag := tag } (.op .semicolon :: vs) := by
  have shows : showsFieldName
      (spellNames names ++ (ws ++ (spellTag tag ++ .op .semicolon :: vs))) = !names.isEmpty := by
    cases names with
    | nil => exact spells.showsFieldName tag vs
    | cons name names => exact spells.showsFieldName_names name names _
  have ends : EndsType (spellTag tag ++ .op .semicolon :: vs) := by
    cases tag <;> exact ⟨rfl, nofun⟩
  exact structFieldWith_reads_tagged types spells h shows ends fieldTag_reads

/-! ## Interface members -/

/-- An element does not look like a method. -/
theorem Spells.showsMethod {x : TypeExpr} {ws : List Lexeme} (h : Spells (.expr .constraint x) ws)
    {rest : List Lexeme} (paren : rest.headD .eof ≠ .op .leftParen) :
    showsMethod (ws ++ rest) = false := by
  generalize hp : Phrase.expr .constraint x = p at h
  induction h generalizing x rest <;> cases hp
  case constraintTerm h _ =>
    cases h with
    | tilde => rfl
    | termType h =>
      cases h with
      | typeName base =>
        cases base with
        | name => exact decide_eq_false paren
        | selector => rfl
      | generic base => cases base <;> rfl
      | _ => rfl
  case union ih _ =>
    rw [List.append_assoc]
    exact ih nofun rfl

/-- A method is read with its parameters and its results. -/
theorem interfaceMemberWith_reads_method {params results : List Field}
    (h : ∀ rest, (paramsWith ty).Reads (.op .leftParen :: us ++ rest) params rest)
    (k : (resultsWith ty).Reads (ws ++ .op .semicolon :: vs) results (.op .semicolon :: vs)) :
    (interfaceMemberWith ty).Reads
      (.ident name :: .op .leftParen :: us ++ (ws ++ .op .semicolon :: vs))
      { names := [name], type := .func params results [] } (.op .semicolon :: vs) := by
  rw [← List.append_assoc]
  refine .bind .docHere <| .ask (fun c clear ahead => by rw [clear.showsMethod, ahead]) <|
    .bind .ident <| .bind (signatureWith_reads h k) ?_
  exact .bind .commentBehind (.pure _ _)

/-- An element of an interface is read as a member without a name. -/
theorem interfaceMemberWith_reads_element (types : ty.ReadsTypes ws.length)
    (spells : Spells (.expr .constraint x) ws)
    (h : ConstraintReads x.bare ws) :
    (interfaceMemberWith ty).Reads (ws ++ .op .semicolon :: vs) { names := [], type := x.bare }
      (.op .semicolon :: vs) := by
  have shows : Typings.showsMethod (ws ++ .op .semicolon :: vs) = false := spells.showsMethod nofun
  have ends : EndsType (.op .semicolon :: vs) := ⟨rfl, nofun⟩
  have element := constraintWith_reads h types ends nofun
  refine .bind .docHere <| .ask (fun c clear ahead => by rw [clear.showsMethod, ahead, shows]) <|
    .bind element ?_
  exact .bind .commentBehind (.pure _ _)

theorem membersRead_nil {member : Parser Field} : MembersRead member [] [] := by
  intro m lt rest
  obtain ⟨m, rfl⟩ := Nat.exists_eq_succ_of_ne_zero (Nat.ne_of_gt (Nat.zero_lt_of_lt lt))
  exact itemsUntil_reads_nil

/-- Members are read one behind another, each with its semicolon. -/
theorem membersRead_cons {member : Parser Field} {f : Field} (some : ws ≠ [])
    (opens : (Phrase.methods fields).Opens ws)
    (h : ∀ rest, member.Reads (ws ++ .op .semicolon :: rest) f (.op .semicolon :: rest))
    (k : MembersRead member fields vs) :
    MembersRead member (f :: fields) (ws ++ .op .semicolon :: vs) := by
  intro m lt rest
  obtain ⟨m, rfl⟩ := Nat.exists_eq_succ_of_ne_zero (Nat.ne_of_gt (Nat.zero_lt_of_lt lt))
  obtain ⟨w, us, rfl⟩ := List.exists_cons_of_ne_nil some
  have begins : Phrase.beginsExpr .constraint w = true := opens
  simp only [List.length_append, List.length_cons] at lt
  have first := statement_reads (h (vs ++ .op .rightBrace :: rest))
  rw [List.append_assoc]
  exact itemsUntil_reads_cons (ne_of_begins begins rfl) (ne_of_begins begins rfl) first
    (k m (by omega) rest)

end Members

end Typings
