import Typings.Text.Quoted

/-!
# Texts of code points

What a text writes in escapes may come to a surrogate without the other one of its pair. A surrogate is
a code point but no character, so a string cannot hold it, and such a text is a list of code points. It
can be encoded if it has no surrogate. With a character filled in for each of its surrogates it is a
string, and from how it looks so filled it can be told what it is (`CodePoints.ofFilled_fill`).
-/

namespace Typings

/-- A surrogate, by its number. -/
structure Surrogate where
  number : Nat
  bounds : 0xd800 ≤ number ∧ number < 0xe000
  deriving DecidableEq, Repr

/-- A code point: a character or a surrogate. -/
inductive CodePoint where
  | char (c : Char)
  | surrogate (s : Surrogate)
  deriving DecidableEq, Repr

/-- A character for each surrogate, to stand in for it. -/
abbrev StandIn := Surrogate → Char

namespace CodePoint

/-- The code point with a number. -/
def ofNat (n : Nat) : CodePoint :=
  if bounds : 0xd800 ≤ n ∧ n < 0xe000 then .surrogate ⟨n, bounds⟩ else .char (Char.ofNat n)

/-- The surrogate that a code point is. -/
def surrogate? : CodePoint → Option Surrogate
  | .char _ => none
  | .surrogate s => some s

/-- The character itself, or the one that stands in for the surrogate. -/
def filled (standIn : StandIn) : CodePoint → Char
  | .char c => c
  | .surrogate s => standIn s

/-- The character itself, or the escape of the surrogate. -/
def escaped : CodePoint → List Char
  | .char c => [c]
  | .surrogate s => '\\' :: 'u' :: Text.hexDigits 4 s.number

end CodePoint

/-- A text of code points. -/
abbrev CodePoints := List CodePoint

/-- Why a text cannot be encoded: where its first surrogate stands, which one it is, and how many
surrogates stand there one behind another. -/
structure EncodeFault where
  start : Nat
  first : Surrogate
  length : Nat
  deriving DecidableEq, Repr

/-- The fault in words: a single surrogate is shown, several are given by their first and last offset. -/
def EncodeFault.message (fault : EncodeFault) : String :=
  "'utf-8' codec can't encode "
    ++ (if fault.length = 1 then
          "character '" ++ String.ofList (CodePoint.surrogate fault.first).escaped
            ++ "' in position " ++ toString fault.start
        else
          "characters in position " ++ toString fault.start ++ "-"
            ++ toString (fault.start + fault.length - 1))
    ++ ": surrogates not allowed"

namespace CodePoints

/-- The text of a string. -/
def ofString (s : String) : CodePoints := s.toList.map .char

/-- The surrogates of a text. -/
def surrogates (t : CodePoints) : List Surrogate := t.filterMap CodePoint.surrogate?

/-- The text with characters that stand in for its surrogates. -/
def fill (standIn : StandIn) (t : CodePoints) : String :=
  String.ofList (t.map (CodePoint.filled standIn))

/-- The text with the escapes of its surrogates. -/
def escaped (t : CodePoints) : String := String.ofList (t.flatMap CodePoint.escaped)

/-- The characters of a text that starts at an offset, if it has no surrogates. -/
def encodeFrom (start : Nat) : CodePoints → Except EncodeFault (List Char)
  | [] => .ok []
  | .char c :: t => (encodeFrom (start + 1) t).map (c :: ·)
  | .surrogate s :: t =>
    .error ⟨start, s, 1 + (t.takeWhile fun p => p.surrogate?.isSome).length⟩

/-- The string that a text is, if it has no surrogates. -/
def encode (t : CodePoints) : Except EncodeFault String := (encodeFrom 0 t).map String.ofList

/-- The same character for all surrogates. -/
def plainly : StandIn := fun _ => '\ufffd'

/-- The same character for all surrogates but one, and another for that. -/
def marking (s : Surrogate) : StandIn := fun other => if other = s then '?' else '\ufffd'

/-- The text that looks like that with characters filled in for its surrogates, all of which are among the
given ones: where it makes a difference how one of these is filled in, that one stands. -/
def ofFilled (among : List Surrogate) (filled : StandIn → String) : CodePoints :=
  let plain := (filled plainly).toList
  among.foldl
    (fun t s => t.zipWith (fun p (c, d) => if c = d then p else .surrogate s)
      (plain.zip (filled (marking s)).toList))
    (plain.map .char)

/-! ## Encoding -/

theorem encodeFrom_eq_ok {start : Nat} {t : CodePoints} {cs : List Char}
    (h : encodeFrom start t = .ok cs) : t = cs.map .char := by
  fun_induction encodeFrom start t generalizing cs with
  | case1 =>
    cases h
    rfl
  | case2 start c t ih =>
    cases rest : encodeFrom (start + 1) t with
    | error fault =>
      rw [rest] at h
      cases h
    | ok ds =>
      rw [rest] at h
      cases h
      rw [List.map_cons, ih rest]
  | case3 => cases h

theorem encodeFrom_map (start : Nat) (cs : List Char) : encodeFrom start (cs.map .char) = .ok cs := by
  induction cs generalizing start with
  | nil => rfl
  | cons c cs ih =>
    rw [List.map_cons, encodeFrom, ih]
    rfl

/-- Texts that can be encoded are strings. -/
theorem encode_eq_ok_iff {t : CodePoints} {s : String} : t.encode = .ok s ↔ t = ofString s := by
  constructor
  · intro h
    unfold encode at h
    cases chars : encodeFrom 0 t with
    | error fault =>
      rw [chars] at h
      cases h
    | ok cs =>
      rw [chars] at h
      cases h
      rw [ofString, String.toList_ofList]
      exact encodeFrom_eq_ok chars
  · rintro rfl
    rw [encode, ofString, encodeFrom_map, Except.map, String.ofList_toList]

/-- A text with a fault has the surrogate that the fault shows. -/
theorem mem_of_encodeFrom_eq_error {start : Nat} {t : CodePoints} {fault : EncodeFault}
    (h : encodeFrom start t = .error fault) : .surrogate fault.first ∈ t := by
  fun_induction encodeFrom start t with
  | case1 => cases h
  | case2 start c t ih =>
    cases rest : encodeFrom (start + 1) t with
    | error other =>
      rw [rest] at h
      cases h
      exact List.mem_cons_of_mem _ (ih rest)
    | ok ds =>
      rw [rest] at h
      cases h
  | case3 =>
    cases h
    exact List.mem_cons_self

/-- Texts that cannot be encoded have surrogates. -/
theorem exists_encode_eq_error_iff {t : CodePoints} :
    (∃ fault, t.encode = .error fault) ↔ ∃ s, .surrogate s ∈ t := by
  constructor
  · rintro ⟨fault, h⟩
    unfold encode at h
    cases chars : encodeFrom 0 t with
    | error other => exact ⟨other.first, mem_of_encodeFrom_eq_error chars⟩
    | ok cs =>
      rw [chars] at h
      cases h
  · rintro ⟨s, mem⟩
    cases h : t.encode with
    | error fault => exact ⟨fault, rfl⟩
    | ok text =>
      rw [encode_eq_ok_iff.1 h] at mem
      obtain ⟨c, -, same⟩ := List.mem_map.1 mem
      cases same

theorem ofString_inj {s s' : String} : ofString s = ofString s' ↔ s = s' := by
  rw [ofString, ofString, List.map_inj_right fun _ _ same => CodePoint.char.inj same, String.toList_inj]

/-! ## Filling in -/

section

variable (standIn : StandIn)

@[simp] theorem fill_ofString (s : String) : fill standIn (ofString s) = s := by
  rw [fill, ofString, List.map_map, show CodePoint.filled standIn ∘ .char = id from rfl, List.map_id,
    String.ofList_toList]

@[simp] theorem fill_append (t u : CodePoints) :
    fill standIn (t ++ u) = fill standIn t ++ fill standIn u := by
  rw [fill, List.map_append, String.ofList_append]
  rfl

@[simp] theorem toList_fill (t : CodePoints) :
    (fill standIn t).toList = t.map (CodePoint.filled standIn) := String.toList_ofList

end

/-- Lists that are mapped from one list are looked at member by member. -/
theorem zipWith_zip_map (t : CodePoints) (known : CodePoint → CodePoint) (f g : CodePoint → Char)
    (s : Surrogate) :
    (t.map known).zipWith (fun p (c, d) => if c = d then p else .surrogate s)
        ((t.map f).zip (t.map g)) =
      t.map fun p => if f p = g p then known p else .surrogate s := by
  induction t with
  | nil => rfl
  | cons p t ih =>
    rw [List.map_cons, List.map_cons, List.map_cons, List.zip_cons_cons, List.zipWith_cons_cons, ih]
    rfl

/-- What is known of a code point `p`, after `q` was, when it has been looked at with a mark for a
surrogate. -/
def sighted (p q : CodePoint) (s : Surrogate) : CodePoint :=
  if p.filled plainly = p.filled (marking s) then q else .surrogate s

theorem sighted_char (c : Char) (q : CodePoint) (s : Surrogate) : sighted (.char c) q s = q :=
  if_pos rfl

theorem sighted_self (q : CodePoint) (s : Surrogate) :
    sighted (.surrogate s) q s = .surrogate s := by
  refine if_neg ?_
  simp [CodePoint.filled, plainly, marking]

theorem sighted_ne {s other : Surrogate} (differ : s ≠ other) (q : CodePoint) :
    sighted (.surrogate s) q other = q := by
  refine if_pos ?_
  simp [CodePoint.filled, plainly, marking, differ]

theorem foldl_marking (among : List Surrogate) (t : CodePoints) (known : CodePoint → CodePoint) :
    among.foldl
        (fun u s => u.zipWith (fun p (c, d) => if c = d then p else .surrogate s)
          ((t.map (CodePoint.filled plainly)).zip (t.map (CodePoint.filled (marking s)))))
        (t.map known) =
      t.map fun p => among.foldl (sighted p) (known p) := by
  induction among generalizing known with
  | nil => rfl
  | cons s among ih =>
    rw [List.foldl_cons, zipWith_zip_map, ih]
    rfl

theorem foldl_sighted_char (among : List Surrogate) (c : Char) (q : CodePoint) :
    among.foldl (sighted (.char c)) q = q := by
  induction among generalizing q with
  | nil => rfl
  | cons s among ih => rw [List.foldl_cons, sighted_char, ih]

theorem foldl_sighted_surrogate {among : List Surrogate} {s : Surrogate} {q : CodePoint}
    (found : s ∈ among ∨ q = .surrogate s) :
    among.foldl (sighted (.surrogate s)) q = .surrogate s := by
  induction among generalizing q with
  | nil => exact found.resolve_left List.not_mem_nil
  | cons other among ih =>
    rw [List.foldl_cons]
    by_cases same : s = other
    · subst same
      exact ih (.inr (sighted_self q s))
    · rw [sighted_ne same]
      exact ih (found.imp_left fun mem => (List.mem_cons.1 mem).resolve_left same)

/-- A text is told from how it looks with characters filled in. -/
theorem ofFilled_fill {among : List Surrogate} {t : CodePoints}
    (all : ∀ s, .surrogate s ∈ t → s ∈ among) : ofFilled among (fun standIn => t.fill standIn) = t := by
  unfold ofFilled
  dsimp only
  simp only [toList_fill]
  rw [List.map_map, foldl_marking]
  conv => rhs; rw [← List.map_id t]
  refine List.map_congr_left fun p mem => ?_
  cases p with
  | char c => exact foldl_sighted_char among c (.char c)
  | surrogate s => exact foldl_sighted_surrogate (.inl (all s mem))

theorem mem_surrogates {t : CodePoints} {s : Surrogate} : s ∈ t.surrogates ↔ .surrogate s ∈ t := by
  refine List.mem_filterMap.trans ⟨?_, fun mem => ⟨_, mem, rfl⟩⟩
  rintro ⟨p, mem, same⟩
  cases p with
  | char c => cases same
  | surrogate other =>
    cases same
    exact mem

/-- Texts are equal that look alike whatever is filled in. -/
theorem eq_of_fill {t u : CodePoints} (same : ∀ standIn, t.fill standIn = u.fill standIn) : t = u := by
  have first : ∀ s, .surrogate s ∈ t → s ∈ t.surrogates ++ u.surrogates := fun s mem =>
    List.mem_append_left _ (mem_surrogates.2 mem)
  have second : ∀ s, .surrogate s ∈ u → s ∈ t.surrogates ++ u.surrogates := fun s mem =>
    List.mem_append_right _ (mem_surrogates.2 mem)
  exact (ofFilled_fill first).symm.trans
    ((congrArg _ (funext same)).trans (ofFilled_fill second))

end CodePoints

end Typings
