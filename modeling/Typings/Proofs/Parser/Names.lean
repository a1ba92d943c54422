import Typings.Proofs.Joined.Files

/-!
# The words in what is parsed

`p.Yields good post` says that what `p` gives satisfies `post` if all identifiers ahead of it are good.
It is closed under all ways to put parsers together. So each word of a parsed declaration that may be
written somewhere is an identifier of the source, or the bar between the terms of a constraint
(`File.wordsIn_of_parse`).
-/

namespace Typings

/-! ## Words -/

mutual

/-- Each word of the type that may be written for it is good: its names, and what else it holds as it
was written. -/
def TypeExpr.WordsIn (good : String → Prop) : TypeExpr → Prop
  | .name n => good n
  | .literal _ text | .counted text => good text
  | .selector x sel => x.WordsIn good ∧ good sel
  | .pointer x | .variadic x | .array x _ | .paren x | .unary _ x => x.WordsIn good
  | .func params results _ => FieldsIn good params ∧ FieldsIn good results
  | .struct fields | .interface fields => FieldsIn good fields
  | .generic x args => x.WordsIn good ∧ TypesIn good args
  | .binary x op y => x.WordsIn good ∧ good op ∧ y.WordsIn good
  | .map _ _ | .channel _ _ | .call _ _ | .composite _ _ | .unknown => True

/-- The same of several types. -/
def TypesIn (good : String → Prop) : List TypeExpr → Prop
  | [] => True
  | x :: xs => x.WordsIn good ∧ TypesIn good xs

/-- The same of fields and their names. -/
def FieldsIn (good : String → Prop) : List Field → Prop
  | [] => True
  | ⟨names, x, _, _, _⟩ :: fields => (∀ n ∈ names, good n) ∧ x.WordsIn good ∧ FieldsIn good fields

end

/-- The names of the field are good, and the words of its type. -/
def Field.WordsIn (good : String → Prop) (f : Field) : Prop :=
  (∀ n ∈ f.names, good n) ∧ f.type.WordsIn good

/-- The declaration is of a known form, and its words are good: its names, and the words of the types
in it. -/
def Decl.WordsIn (good : String → Prop) : Decl → Prop
  | .typeSpec spec => good spec.name ∧ (∀ n ∈ Field.allNames spec.typeParams, good n) ∧
      spec.type.WordsIn good
  | .func decl => good decl.name ∧ (∀ n ∈ Field.allNames decl.typeParams, good n) ∧
      decl.type.WordsIn good ∧ ∀ recv ∈ decl.recv, recv.type.WordsIn good
  | .unknown => False

section

variable {good : String → Prop}

/-- A declaration with words is of a known form. -/
theorem Decl.WordsIn.known {d : Decl} (words : d.WordsIn good) : d ≠ .unknown := by
  rintro rfl
  exact words

theorem typesIn_iff {xs : List TypeExpr} : TypesIn good xs ↔ ∀ x ∈ xs, x.WordsIn good := by
  induction xs with
  | nil => exact ⟨fun _ => List.forall_mem_nil _, fun _ => trivial⟩
  | cons x xs ih => rw [TypesIn, ih, List.forall_mem_cons]

theorem fieldsIn_iff {fs : List Field} : FieldsIn good fs ↔ ∀ f ∈ fs, f.WordsIn good := by
  induction fs with
  | nil => exact ⟨fun _ => List.forall_mem_nil _, fun _ => trivial⟩
  | cons f fs ih =>
    obtain ⟨names, type, doc, comment, tag⟩ := f
    rw [FieldsIn, ih, List.forall_mem_cons, Field.WordsIn, and_assoc]

theorem TypeExpr.WordsIn.deref {x : TypeExpr} (h : x.WordsIn good) : x.deref.WordsIn good := by
  cases x <;> exact h

theorem TypeExpr.WordsIn.unparen {x : TypeExpr} (h : x.WordsIn good) : x.unparen.WordsIn good := by
  cases x <;> exact h

end

/-! ## What a parser yields -/

/-- The text has an end, and the identifiers at and behind the cursor are good. -/
structure Cursor.NamesIn (good : String → Prop) (c : Cursor) : Prop where
  ended : c.IsEnded
  good_of_mem : ∀ {n}, Lexeme.ident n ∈ c.ahead → good n

/-- The names ahead are among those that were ahead before. -/
theorem Cursor.NamesIn.forward {good : String → Prop} {c c' : Cursor} (h : c.NamesIn good)
    (reaches : c.Reaches c') : c'.NamesIn good := by
  obtain ⟨us, rest, -⟩ := reaches.tokens
  refine ⟨reaches.isEnded h.ended, fun mem => h.good_of_mem ?_⟩
  rw [Cursor.ahead, rest, List.map_append]
  exact List.mem_append_right _ mem

namespace Parser

variable {α β : Type} {good : String → Prop}

/-- What the parser gives is as said, if the identifiers ahead are good. -/
def Yields (good : String → Prop) (p : Parser α) (post : α → Prop) : Prop :=
  ∀ (c c' : Cursor) (x : α), p c = .ok (x, c') → c.NamesIn good → c.Reaches c' ∧ post x

/-- The name of an entry is good, if it has one, and so are the words of its type. -/
def EntryIn (good : String → Prop) (name : Option String) (type : TypeExpr) : Prop :=
  (∀ n ∈ name, good n) ∧ type.WordsIn good

/-- The fields that entries are grouped to. -/
theorem wordsIn_groupsTo {pending : List String} {es : List Entry} {fields : List Field}
    (names : ∀ n ∈ pending, good n) (all : ∀ e ∈ es, EntryIn good e.name e.type)
    (h : GroupsTo pending es fields) : ∀ f ∈ fields, f.WordsIn good := by
  induction h with
  | nil => exact List.forall_mem_nil _
  | field _ ih =>
    obtain ⟨⟨said, words⟩, rest⟩ := List.forall_mem_cons.1 all
    refine List.forall_mem_cons.2 ⟨⟨?_, words⟩, ih (List.forall_mem_nil _) rest⟩
    exact List.forall_mem_append.2 ⟨names, List.forall_mem_singleton.2 (said _ rfl)⟩
  | name _ ih =>
    obtain ⟨⟨-, good⟩, rest⟩ := List.forall_mem_cons.1 all
    exact ih (List.forall_mem_append.2 ⟨names, List.forall_mem_singleton.2 good⟩) rest

/-- Entries whose words are good are put together to fields whose words are. -/
theorem wordsIn_fieldsOf {es : List Entry} {fields : List Field}
    (all : ∀ e ∈ es, EntryIn good e.name e.type) (h : fieldsOf es = .ok fields) :
    ∀ f ∈ fields, f.WordsIn good := by
  unfold fieldsOf at h
  split at h
  · exact wordsIn_groupsTo (List.forall_mem_nil _) all (groupsTo_of_groupNames h)
  · cases h
    exact List.forall_mem_map.2 fun e mem => ⟨List.forall_mem_nil _, (all e mem).2⟩

namespace Yields

variable {p : Parser α} {post : α → Prop} {post' : β → Prop} {f : α → Parser β}

theorem of_forward (h : p.Forward) : p.Yields good fun _ => True := fun _ _ _ run _ => ⟨h run, trivial⟩

theorem pure {x : α} (h : post x) : Yields good (Pure.pure x) post := by
  intro c c' y run _
  obtain ⟨rfl, rfl⟩ := pure_eq_ok.1 run
  exact ⟨.refl c, h⟩

theorem fail (cause : ParseCause) : Yields good (Parser.fail cause : Parser α) post :=
  fun _ _ _ run => absurd run fail_ne_ok

/-- What a step promises about its value, the next may take for granted. -/
theorem bind (h : p.Yields good post) (k : ∀ x, post x → (f x).Yields good post') :
    (p >>= f).Yields good post' := by
  intro c c' y run names
  obtain ⟨x, c₁, first, rest⟩ := bind_eq_ok.1 run
  obtain ⟨reaches, said⟩ := h c c₁ x first names
  obtain ⟨further, said'⟩ := k x said c₁ c' y rest (names.forward reaches)
  exact ⟨reaches.trans further, said'⟩

/-- Whatever a parser gives that goes before. -/
theorem after (h : p.Forward) (k : ∀ x, (f x).Yields good post') : (p >>= f).Yields good post' :=
  (of_forward h).bind fun x _ => k x

theorem ask {γ : Type} {look : Cursor → γ} {f : γ → Parser β} (k : ∀ z, (f z).Yields good post') :
    (Parser.ask look >>= f).Yields good post' := after (forward_ask look) k

theorem advance {f : Token → Parser β} (k : ∀ t, (f t).Yields good post') :
    (Parser.advance >>= f).Yields good post' := after forward_advance k

theorem expect {w : Lexeme} {f : Token → Parser β} (k : ∀ t, (f t).Yields good post') :
    (Parser.expect w >>= f).Yields good post' := after (forward_expect w) k

/-- A look that decides. -/
theorem ifAsk {look : Cursor → Bool} {p q : Parser α} (h : p.Yields good post)
    (k : q.Yields good post) :
    (do if ← Parser.ask look then p else q : Parser α).Yields good post := by
  refine ask fun shows => ?_
  cases shows with
  | true => exact h
  | false => exact k

theorem commentBehind {f : Option CommentGroup → Parser β} (k : ∀ m, (f m).Yields good post') :
    (Parser.commentBehind >>= f).Yields good post' := after Framed.commentBehind.moves k

/-- A name that is read is one of those ahead. -/
theorem ident : Yields good Parser.ident good := by
  intro c c' name run names
  refine ⟨Framed.ident.moves run, names.good_of_mem ?_⟩
  rw [(passes_of_ident names.ended run).ahead_eq]
  exact .head _

/-- The levels do not show in what is promised. -/
theorem bounded {p : Nat → Parser α} (h : ∀ n, (p n).Yields good post) :
    (Parser.bounded p).Yields good post := fun c c' x => h _ c c' x

/-! ## Loops -/

/-- What one item promises holds of all items. -/
theorem itemsUntil {close : Lexeme} {item : Parser α} (h : item.Yields good post) (n : Nat) :
    (Parser.itemsUntil close item n).Yields good fun xs => ∀ x ∈ xs, post x := by
  induction n with
  | zero => exact fail _
  | succ n ih =>
    refine ifAsk (pure (List.forall_mem_nil _)) (ifAsk (advance fun _ => ih) ?_)
    exact h.bind fun x said => ih.bind fun xs all => pure (List.forall_mem_cons.2 ⟨said, all⟩)

theorem commaItems {close : Lexeme} {item : Parser α} (h : item.Yields good post) (n : Nat) :
    (Parser.commaItems close item n).Yields good fun xs => ∀ x ∈ xs, post x := by
  induction n with
  | zero => exact fail _
  | succ n ih =>
    refine ifAsk (pure (List.forall_mem_nil _)) (h.bind fun x said => ifAsk (advance fun _ => ?_) ?_)
    · exact ih.bind fun xs all => pure (List.forall_mem_cons.2 ⟨said, all⟩)
    · exact pure (List.forall_mem_singleton.2 said)

theorem moreNames (n : Nat) : (Parser.moreNames n).Yields good fun names => ∀ n ∈ names, good n := by
  induction n with
  | zero => exact fail _
  | succ n ih =>
    refine ifAsk (advance fun _ => ident.bind fun name said => ?_) (pure (List.forall_mem_nil _))
    exact ih.bind fun names all => pure (List.forall_mem_cons.2 ⟨said, all⟩)

/-! ## Types -/

variable {ty : Parser TypeExpr}

/-- A name of a package is made of two good names. -/
theorem qualifiedFrom {name : String} (said : good name) :
    (Parser.qualifiedFrom name).Yields good (TypeExpr.WordsIn good) :=
  ifAsk (advance fun _ => ident.bind fun _ sel => pure ⟨said, sel⟩) (pure said)

/-- A name and its arguments have good words. -/
theorem typeNameWith (h : ty.Yields good (TypeExpr.WordsIn good)) :
    (Parser.typeNameWith ty).Yields good (TypeExpr.WordsIn good) := by
  refine ident.bind fun name said => (qualifiedFrom said).bind fun base words => ?_
  refine ifAsk (advance fun _ => (bounded (commaItems h)).bind fun args all => ?_) (pure words)
  exact expect fun _ => pure ⟨words, typesIn_iff.2 all⟩

theorem arrayWith (h : ty.Yields good (TypeExpr.WordsIn good)) :
    (Parser.arrayWith ty).Yields good (TypeExpr.WordsIn good) := by
  refine ifAsk (advance fun _ => h.bind fun _ words => pure words) (ifAsk (advance fun _ => ?_) ?_)
  · exact expect fun _ => h.bind fun _ words => pure words
  · exact after Framed.length.moves fun _ => expect fun _ => h.bind fun _ words => pure words

/-- Operands, and the words of the operators between them. -/
theorem operandsAfter {isOperator : Lexeme → Bool} {operand : Parser TypeExpr}
    (word : ∀ w, isOperator w = true → good w.text) (h : operand.Yields good (TypeExpr.WordsIn good))
    (n : Nat) :
    (Parser.operandsAfter isOperator operand n).Yields good fun xs =>
      ∀ x ∈ xs, good x.1 ∧ x.2.WordsIn good := by
  induction n with
  | zero => exact fail _
  | succ n ih =>
    refine ask fun t => ?_
    split
    · next op =>
      refine advance fun _ => h.bind fun x words => ih.bind fun xs all => pure ?_
      exact List.forall_mem_cons.2 ⟨⟨word _ op, words⟩, all⟩
    · exact pure (List.forall_mem_nil _)

/-- Operands grouped to the left. -/
theorem wordsIn_foldl {xs : List (String × TypeExpr)} {x : TypeExpr} (first : x.WordsIn good)
    (all : ∀ x ∈ xs, good x.1 ∧ x.2.WordsIn good) :
    (xs.foldl (fun x (op, y) => .binary x op y) x).WordsIn good := by
  induction xs generalizing x with
  | nil => exact first
  | cons y ys ih =>
    obtain ⟨⟨op, next⟩, rest⟩ := List.forall_mem_cons.1 all
    exact ih ⟨first, op, next⟩ rest

theorem constraintTerm (h : ty.Yields good (TypeExpr.WordsIn good)) :
    (Parser.constraintTerm ty).Yields good (TypeExpr.WordsIn good) :=
  ifAsk (advance fun _ => h.bind fun _ words => pure words) h

/-- A term, and others with bars before them. -/
theorem constraintWith (bar : good "|") (h : ty.Yields good (TypeExpr.WordsIn good)) :
    (Parser.constraintWith ty).Yields good (TypeExpr.WordsIn good) := by
  refine (constraintTerm h).bind fun x first => ?_
  refine (bounded (operandsAfter ?_ (constraintTerm h))).bind fun xs all => pure (wordsIn_foldl first all)
  intro w op
  rw [of_decide_eq_true op]
  exact bar

/-! ## Lists of fields -/

theorem entryType (bar : good "|") (h : ty.Yields good (TypeExpr.WordsIn good)) (constraint : Bool) :
    (Parser.entryType ty constraint).Yields good (TypeExpr.WordsIn good) := by
  cases constraint with
  | true => exact constraintWith bar h
  | false => exact h

theorem orVariadic {other : Parser TypeExpr} (h : ty.Yields good (TypeExpr.WordsIn good))
    (k : other.Yields good (TypeExpr.WordsIn good)) :
    (Parser.orVariadic ty other).Yields good (TypeExpr.WordsIn good) :=
  ifAsk (advance fun _ => h.bind fun _ words => pure words) k

/-- An entry has a good name, if it has one, and good words in its type. -/
theorem nameAndType (bar : good "|") (h : ty.Yields good (TypeExpr.WordsIn good)) (close : Lexeme)
    (constraint : Bool) :
    (Parser.nameAndType ty close constraint).Yields good fun e => EntryIn good e.1 e.2 := by
  have nameless : ∀ {x : TypeExpr}, x.WordsIn good → EntryIn good none x :=
    fun words => ⟨fun _ mem => (Option.not_mem_none _ mem).elim, words⟩
  have named : ∀ {n : String} {x : TypeExpr}, good n → x.WordsIn good → EntryIn good (some n) x :=
    fun said words => ⟨fun _ mem => Option.mem_some_iff.1 mem ▸ said, words⟩
  refine ifAsk ((orVariadic h h).bind fun _ words => pure (nameless words)) (ifAsk ?_ ?_)
  · exact ident.bind fun _ said => h.bind fun _ words => pure (named said words)
  · refine (entryType bar h constraint).bind fun x words => ?_
    split
    · next name =>
      refine ask fun next => ?_
      split
      · exact pure (nameless words)
      · refine (orVariadic h (entryType bar h constraint)).bind fun _ behind => ?_
        exact pure (named words behind)
    · exact pure (nameless words)

/-- All entries have good words. -/
theorem entriesUntil {close : Lexeme} {entry : Parser (Option String × TypeExpr)}
    (h : entry.Yields good fun e => EntryIn good e.1 e.2) (n : Nat) :
    (Parser.entriesUntil close entry n).Yields good fun es =>
      ∀ e ∈ es, EntryIn good e.name e.type := by
  induction n with
  | zero => exact fail _
  | succ n ih =>
    refine ifAsk (pure (List.forall_mem_nil _)) (h.bind fun e said => ifAsk (advance fun _ => ?_) ?_)
    · refine commentBehind fun comment => after Framed.passSemis.moves fun _ => ?_
      exact ih.bind fun es all => pure (List.forall_mem_cons.2 ⟨said, all⟩)
    · refine commentBehind fun comment => after Framed.passSemis.moves fun _ => ?_
      exact pure (List.forall_mem_singleton.2 said)

/-- Entries with good words are put together to fields with good words. -/
theorem fieldListWith (bar : good "|") (h : ty.Yields good (TypeExpr.WordsIn good))
    (opening close : Lexeme) (constraint : Bool) :
    (Parser.fieldListWith ty opening close constraint).Yields good fun fields =>
      ∀ f ∈ fields, f.WordsIn good := by
  refine expect fun _ => after Framed.passSemis.moves fun _ => ?_
  refine (bounded (entriesUntil (nameAndType bar h close constraint))).bind fun es all => ?_
  refine expect fun _ => ?_
  cases fields : fieldsOf es with
  | ok fs => exact pure (wordsIn_fieldsOf all fields)
  | error cause => exact fail cause

theorem resultsWith (bar : good "|") (h : ty.Yields good (TypeExpr.WordsIn good)) :
    (Parser.resultsWith ty).Yields good fun fields => ∀ f ∈ fields, f.WordsIn good := by
  refine ifAsk (fieldListWith bar h _ _ false) (ask fun t => ?_)
  split
  · refine h.bind fun x words => pure (List.forall_mem_singleton.2 ⟨List.forall_mem_nil _, words⟩)
  · exact pure (List.forall_mem_nil _)

/-- The parameters and the results of a signature have good words. -/
theorem signatureWith (bar : good "|") (h : ty.Yields good (TypeExpr.WordsIn good)) :
    (Parser.signatureWith ty).Yields good (TypeExpr.WordsIn good) := by
  refine (fieldListWith bar h _ _ false).bind fun params words => ?_
  exact (resultsWith bar h).bind fun results words' => pure ⟨fieldsIn_iff.2 words, fieldsIn_iff.2 words'⟩

/-! ## Bodies -/

theorem fieldNames : Parser.fieldNames.Yields good fun names => ∀ n ∈ names, good n := by
  refine ifAsk (ident.bind fun name said => ?_) (pure (List.forall_mem_nil _))
  exact (bounded moreNames).bind fun names all => pure (List.forall_mem_cons.2 ⟨said, all⟩)

/-- A field has good names, and good words in its type. -/
theorem structFieldWith (h : ty.Yields good (TypeExpr.WordsIn good)) :
    (Parser.structFieldWith ty).Yields good (Field.WordsIn good) := by
  refine ask fun doc => fieldNames.bind fun names said => h.bind fun x words => ?_
  exact after (Framed.moves .fieldTag) fun tag => commentBehind fun _ => pure ⟨said, words⟩

/-- A member has good names, and good words in its type. -/
theorem interfaceMemberWith (bar : good "|") (h : ty.Yields good (TypeExpr.WordsIn good)) :
    (Parser.interfaceMemberWith ty).Yields good (Field.WordsIn good) := by
  refine ask fun doc => ifAsk (ident.bind fun name said => ?_) ?_
  · refine (signatureWith bar h).bind fun x words => commentBehind fun _ => pure ⟨?_, words⟩
    exact List.forall_mem_singleton.2 said
  · refine (constraintWith bar h).bind fun x words => commentBehind fun _ => pure ⟨?_, words⟩
    exact List.forall_mem_nil _

/-- An item and the end of its statement. -/
theorem statement (h : p.Yields good post) :
    Yields good (do let x ← p; Parser.endStatement; Pure.pure x) post :=
  h.bind fun _ said => after Framed.endStatement.moves fun _ => pure said

theorem bodyOf {member : Parser Field} (h : member.Yields good (Field.WordsIn good)) :
    (Parser.bodyOf member).Yields good (FieldsIn good) := by
  refine expect fun _ => (bounded (itemsUntil h.statement)).bind fun fields all => ?_
  exact expect fun _ => pure (fieldsIn_iff.2 all)

theorem mapWith (h : ty.Yields good (TypeExpr.WordsIn good)) :
    (Parser.mapWith ty).Yields good (TypeExpr.WordsIn good) :=
  expect fun _ => h.bind fun _ _ => expect fun _ => h.bind fun _ _ => pure trivial

theorem channelWith (h : ty.Yields good (TypeExpr.WordsIn good)) :
    (Parser.channelWith ty).Yields good (TypeExpr.WordsIn good) :=
  ifAsk (advance fun _ => h.bind fun _ _ => pure trivial) (h.bind fun _ _ => pure trivial)

/-- A type from the types inside it. -/
theorem typeWith (bar : good "|") (h : ty.Yields good (TypeExpr.WordsIn good)) :
    (Parser.typeWith ty).Yields good (TypeExpr.WordsIn good) := by
  refine ask fun t => ?_
  generalize t.lexeme = w
  split
  · exact typeNameWith h
  · exact advance fun _ => h.bind fun _ words => pure words
  · exact advance fun _ => arrayWith h
  · exact advance fun _ => mapWith h
  · exact advance fun _ => channelWith h
  · exact advance fun _ => expect fun _ => h.bind fun _ _ => pure trivial
  · exact advance fun _ => signatureWith bar h
  · exact expect fun _ => (bodyOf (structFieldWith h)).bind fun _ words => pure words
  · exact expect fun _ => (bodyOf (interfaceMemberWith bar h)).bind fun _ words => pure words
  · exact advance fun _ => h.bind fun _ words => expect fun _ => pure words
  · exact fail _

/-- By induction on the levels: each form of a type has good words, as its parts do. -/
theorem typeWithin (bar : good "|") (n : Nat) :
    (Parser.typeWithin n).Yields good (TypeExpr.WordsIn good) := by
  induction n with
  | zero => exact fail _
  | succ n ih => exact typeWith bar ih

theorem type (bar : good "|") : Parser.type.Yields good (TypeExpr.WordsIn good) :=
  bounded (typeWithin bar)

/-! ## Declarations -/

theorem optional {look : Cursor → Bool} {x : α} (h : p.Yields good post) (k : post x) :
    (Parser.optional look p x).Yields good post := ifAsk h (pure k)

/-- A statement with a head. -/
theorem statementOf (h : p.Yields good post) {f : α → β} (k : ∀ x, post x → post' (f x)) :
    (Parser.statementOf p f).Yields good post' :=
  h.bind fun x said => after Framed.endStatement.moves fun _ => pure (k x said)

/-- Type parameters have good names; their constraints are not looked at. -/
theorem typeParams (bar : good "|") :
    Parser.typeParams.Yields good fun fields => ∀ n ∈ Field.allNames fields, good n := by
  refine (fieldListWith bar (type bar) _ _ true).bind fun fields words => ?_
  split
  · exact fail _
  · refine pure fun n mem => ?_
    obtain ⟨f, field, name⟩ := List.mem_flatMap.1 mem
    exact (words f field).1 n name

/-- A specification has a good name, and good words in its type. -/
theorem typeSpec (bar : good "|") (doc : Option CommentGroup) :
    (Parser.typeSpec doc).Yields good fun spec => (Decl.typeSpec spec).WordsIn good := by
  rw [typeSpec_eq]
  refine ident.bind fun name said => ?_
  refine (optional (typeParams bar) (List.forall_mem_nil _)).bind fun params names => ?_
  refine ask fun isAlias => after ?_ fun _ => ?_
  · cases isAlias with
    | true => exact Framed.moves (.advance fun _ _ _ => .pure _)
    | false => exact (Framed.pure ()).moves
  · exact (type bar).bind fun x words => commentBehind fun _ => pure ⟨said, names, words⟩

theorem receiver (bar : good "|") : Parser.receiver.Yields good (Field.WordsIn good) := by
  refine (fieldListWith bar (type bar) _ _ false).bind fun fields words => ?_
  split
  · exact pure (List.forall_mem_singleton.1 words)
  · exact fail _

theorem someReceiver (bar : good "|") :
    (some <$> Parser.receiver).Yields good fun recv => ∀ f ∈ recv, Field.WordsIn good f := by
  rw [map_eq_pure_bind]
  exact (receiver bar).bind fun recv words => pure fun f mem => Option.mem_some_iff.1 mem ▸ words

/-- A function has a good name, and good words in its signature and its receiver. -/
theorem funcDeclHead (bar : good "|") :
    Parser.funcDeclHead.Yields good fun decl => (Decl.func decl).WordsIn good := by
  refine ask fun doc => expect fun _ => ?_
  refine (optional (someReceiver bar) fun f mem => (Option.not_mem_none f mem).elim).bind
    fun recv owner => ident.bind fun name said => ?_
  refine (optional (typeParams bar) (List.forall_mem_nil _)).bind fun typeParams names => ?_
  refine (fieldListWith bar (type bar) _ _ false).bind fun params words => ?_
  refine (resultsWith bar (type bar)).bind fun results words' => ?_
  refine after (Framed.moves (.optional (current_lexeme_within _) passBlock_framed ())) fun _ =>
    pure ⟨said, names, ?_, fun f mem => (owner f mem).2⟩
  exact ⟨fieldsIn_iff.2 words, fieldsIn_iff.2 words'⟩

section declarations

variable {holds : Decl → Prop}

/-- What holds of each type specification holds of those of a type declaration. -/
theorem typeDeclHead
    (spec : ∀ doc, (Parser.typeSpec doc).Yields good fun spec => holds (.typeSpec spec)) :
    Parser.typeDeclHead.Yields good fun specs => ∀ spec ∈ specs, holds (.typeSpec spec) := by
  refine ask fun doc => expect fun _ => ifAsk (advance fun _ => ?_) ?_
  · refine (bounded (itemsUntil ?_)).bind fun specs all => expect fun _ => pure all
    exact ask fun doc => (spec doc).statement
  · exact (spec doc).bind fun spec here => pure (List.forall_mem_singleton.2 here)

/-- What holds of type specifications and of functions holds of all declarations. -/
theorem declaration
    (spec : ∀ doc, (Parser.typeSpec doc).Yields good fun spec => holds (.typeSpec spec))
    (func : Parser.funcDeclHead.Yields good fun decl => holds (.func decl)) :
    Parser.declaration.Yields good fun ds => ∀ d ∈ ds, holds d := by
  rw [declaration_eq]
  refine ask fun t => ?_
  generalize t.lexeme = w
  split
  · exact (of_forward importHead_framed.forward).statementOf fun _ _ => List.forall_mem_nil _
  · exact (typeDeclHead spec).statementOf fun specs all => List.forall_mem_map.2 all
  · exact func.statementOf fun decl here => List.forall_mem_singleton.2 here
  · exact fail _

theorem packageClause : Parser.packageClause.Yields good fun _ => True := by
  refine ifAsk (advance fun _ => ident.bind fun name _ => ?_) (pure trivial)
  exact after Framed.endStatement.moves fun _ => pure trivial

/-- What holds of type specifications and of functions holds of all declarations of a file. -/
theorem file
    (spec : ∀ doc, (Parser.typeSpec doc).Yields good fun spec => holds (.typeSpec spec))
    (func : Parser.funcDeclHead.Yields good fun decl => holds (.func decl)) :
    Parser.file.Yields good fun file => ∀ d ∈ file.decls, holds d := by
  refine after Framed.passSemis.moves fun _ => packageClause.bind fun _ _ => ?_
  refine (bounded (itemsUntil (declaration spec func))).bind fun decls all => pure fun d mem => ?_
  obtain ⟨ds, group, decl⟩ := List.mem_flatten.1 mem
  exact all ds group d decl

end declarations

theorem expectEnd : Parser.expectEnd.Yields good fun _ => True :=
  after Framed.passSemis.moves fun _ => ifAsk (pure trivial) (fail _)

end Yields

end Parser

/-- Each word of a parsed declaration that may be written is an identifier that has been scanned, or
the bar of a constraint: what is true of these is true of it. -/
theorem File.wordsIn_of_parse {source : String} {file : File} (h : File.parse source = .ok file)
    {good : String → Prop} (ident : ∀ {n}, (Lexeme.ident n).IsScanned → good n) (bar : good "|") :
    ∀ d ∈ file.decls, d.WordsIn good := by
  obtain ⟨l, c, scanned, run⟩ := Parser.run_eq_ok.1 h
  refine (Parser.Yields.file (.typeSpec bar) (.funcDeclHead bar) _ c file run ⟨Cursor.isEnded_ofLayout l, fun mem => ?_⟩).2
  exact ident ((Parser.lexemes_of_reaches scanned (.refl _)).2 _ mem)

/-- The same of a type on its own. -/
theorem TypeExpr.wordsIn_of_parse {source : String} {x : TypeExpr} (h : TypeExpr.parse source = .ok x)
    {good : String → Prop} (ident : ∀ {n}, (Lexeme.ident n).IsScanned → good n) (bar : good "|") :
    x.WordsIn good := by
  obtain ⟨l, c, scanned, run⟩ := Parser.run_eq_ok.1 h
  have yields : Parser.Yields good (do
      let type ← Parser.constraint
      Parser.expectEnd
      pure type) (TypeExpr.WordsIn good) :=
    (Parser.Yields.constraintWith bar (.type bar)).bind fun _ words =>
      Parser.Yields.expectEnd.bind fun _ _ => .pure words
  refine (yields _ c x run ⟨Cursor.isEnded_ofLayout l, fun mem => ?_⟩).2
  exact ident ((Parser.lexemes_of_reaches scanned (.refl _)).2 _ mem)

end Typings
