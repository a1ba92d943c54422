import Typings.Json.Value
import Typings.Position
import Typings.Text.Decimal

/-!
# Reading JSON

A reader takes a value off the front of a text and gives what is left, which is shorter: so reading
ends, however deep the text is nested and wherever it is cut off. An error is told by its
cause and by what is left of the text at the place to blame, from which its offset, line and column
follow. The literals `NaN`, `Infinity` and `-Infinity` are read as numbers. The escapes of a surrogate
pair write one character; a surrogate that is escaped alone is a code point of the string.
-/

namespace Typings.Json

/-- Why a text is not a JSON text. -/
inductive ErrorCause where
  | byteOrderMark
  | value
  | propertyName
  | colon
  | comma
  | openString
  | controlCharacter
  | escape
  | numberedEscape
  | longNumber (digits : Nat)
  | extraData
  deriving DecidableEq, Repr

/-- A cause in words. -/
def ErrorCause.message : ErrorCause → String
  | .byteOrderMark => "Unexpected UTF-8 BOM (decode using utf-8-sig)"
  | .value => "Expecting value"
  | .propertyName => "Expecting property name enclosed in double quotes"
  | .colon => "Expecting ':' delimiter"
  | .comma => "Expecting ',' delimiter"
  | .openString => "Unterminated string starting at"
  | .controlCharacter => "Invalid control character at"
  | .escape => "Invalid \\escape"
  | .numberedEscape => "Invalid \\uXXXX escape"
  | .longNumber digits => Text.digitLimitMessage digits
  | .extraData => "Extra data"

/-- A cause, and the text from the place to blame on. -/
structure Fault where
  cause : ErrorCause
  left : List Char
  deriving DecidableEq, Repr

/-- What is left of a text when something is taken off its front. -/
abbrev Rest (text : List Char) := { rest : List Char // rest.length < text.length }

/-- What is left of a text is left of every text that is no shorter. -/
def Rest.within {part : List Char} (rest : Rest part) {text : List Char}
    (h : part.length ≤ text.length) : Rest text :=
  ⟨rest.1, Nat.lt_of_lt_of_le rest.2 h⟩

/-- The text without the white space at its start. -/
def skipSpace (cs : List Char) : List Char :=
  cs.dropWhile fun c => c = ' ' || c = '\t' || c = '\n' || c = '\r'

theorem length_skipSpace_le (cs : List Char) : (skipSpace cs).length ≤ cs.length :=
  (List.dropWhile_sublist _).length_le

/-- What is left behind a mark, if it comes next after white space. -/
def afterMark? (mark : Char) (cs : List Char) : Option (Rest cs) :=
  match h : skipSpace cs with
  | [] => none
  | c :: rest =>
    if c = mark then some ⟨rest, by have := length_skipSpace_le cs; simp [h] at this; omega⟩
    else none

/-! ## Strings -/

/-- The value of a hexadecimal digit. -/
def hexValue? (c : Char) : Option Nat :=
  if '0' ≤ c && c ≤ '9' then some (c.toNat - 48)
  else if 'a' ≤ c && c ≤ 'f' then some (c.toNat - 87)
  else if 'A' ≤ c && c ≤ 'F' then some (c.toNat - 55)
  else none

/-- The value of four hexadecimal digits. -/
def hexValue4? (a b c d : Char) : Option Nat := do
  let a ← hexValue? a
  let b ← hexValue? b
  let c ← hexValue? c
  let d ← hexValue? d
  some (((a * 16 + b) * 16 + c) * 16 + d)

/-- The number is the first half of a surrogate pair. -/
def isHighSurrogate (n : Nat) : Bool := 0xd800 ≤ n && n ≤ 0xdbff

/-- The number is the second half of a surrogate pair. -/
def isLowSurrogate (n : Nat) : Bool := 0xdc00 ≤ n && n ≤ 0xdfff

/-- The character that a letter behind a backslash stands for. -/
def escaped? (c : Char) : Option Char :=
  if c = '"' || c = '\\' || c = '/' then some c
  else if c = 'b' then some '\x08'
  else if c = 'f' then some '\x0c'
  else if c = 'n' then some '\n'
  else if c = 'r' then some '\r'
  else if c = 't' then some '\t'
  else none

/-- The second half of a surrogate pair: its number and what is left behind it. Something must be
left; no numbered escape at all is not an error, but one with a wrong digit is. -/
def lowSurrogate? : List Char → Except Fault (Option (Nat × List Char))
  | '\\' :: 'u' :: a :: b :: c :: d :: e :: rest =>
    match hexValue4? a b c d with
    | none => .error ⟨.numberedEscape, 'u' :: a :: b :: c :: d :: e :: rest⟩
    | some n => .ok (if isLowSurrogate n then some (n, e :: rest) else none)
  | _ => .ok none

/-- What is left behind a second half is shorter. -/
theorem lowSurrogate?_length {cs rest : List Char} {n : Nat}
    (h : lowSurrogate? cs = .ok (some (n, rest))) : rest.length < cs.length := by
  unfold lowSurrogate? at h
  split at h
  · split at h
    · cases h
    · split at h
      · cases h
        simp only [List.length_cons]
        omega
      · cases h
  · cases h

/-- The code point of a numbered escape, from behind its `u` on, and what is left behind it. Something must
be left behind its digits. -/
def numberedEscape (cs : List Char) : Except Fault (CodePoint × List Char) :=
  match cs with
  | a :: b :: c :: d :: e :: rest =>
    match hexValue4? a b c d with
    | none => .error ⟨.numberedEscape, 'u' :: cs⟩
    | some n => do
      if isHighSurrogate n then
        match ← lowSurrogate? (e :: rest) with
        | some (low, rest) =>
          .ok (.ofNat (0x10000 + (n - 0xd800) * 0x400 + (low - 0xdc00)), rest)
        | none => .ok (.ofNat n, e :: rest)
      else .ok (.ofNat n, e :: rest)
  | _ => .error ⟨.numberedEscape, 'u' :: cs⟩

/-- What is left behind a numbered escape is shorter. -/
theorem numberedEscape_length {cs rest : List Char} {p : CodePoint}
    (h : numberedEscape cs = .ok (p, rest)) : rest.length < cs.length := by
  unfold numberedEscape at h
  split at h
  · next a b c d e behind =>
    have shorter : (e :: behind).length < (a :: b :: c :: d :: e :: behind).length := by
      simp only [List.length_cons]
      omega
    split at h
    · cases h
    · split at h
      · cases hl : lowSurrogate? (e :: behind) with
        | error fault => rw [hl] at h; cases h
        | ok low =>
          rw [hl] at h
          cases low with
          | none => cases h; exact shorter
          | some low =>
            obtain ⟨-, rfl⟩ := Prod.mk.inj (Except.ok.inj h)
            exact Nat.lt_trans (lowSurrogate?_length hl) shorter
      · cases h
        exact shorter
  · cases h

/-- The code points of a string behind its opening quote; `opening` is the text from that quote
on. -/
def stringBody (opening cs : List Char) : Except Fault (CodePoints × Rest cs) :=
  match cs with
  | [] => .error ⟨.openString, opening⟩
  | c :: cs =>
    if c = '"' then .ok ([], ⟨cs, Nat.lt_succ_self _⟩)
    else if c = '\\' then
      match cs with
      | [] => .error ⟨.openString, opening⟩
      | 'u' :: cs =>
        match h : numberedEscape cs with
        | .error fault => .error fault
        | .ok (p, rest) => do
          have shorter := numberedEscape_length h
          let (more, rest) ← stringBody opening rest
          .ok (p :: more, rest.within (Nat.le_of_lt (Nat.lt_add_right 2 shorter)))
      | e :: es =>
        match escaped? e with
        | none => .error ⟨.escape, c :: e :: es⟩
        | some x => do
          let (more, rest) ← stringBody opening es
          .ok (.char x :: more, rest.within (Nat.le_add_right _ 2))
    else if c.toNat ≤ 0x1f then .error ⟨.controlCharacter, c :: cs⟩
    else do
      let (more, rest) ← stringBody opening cs
      .ok (.char c :: more, rest.within (Nat.le_succ _))
termination_by cs.length

/-- A string behind its opening quote. -/
def string (cs : List Char) : Except Fault (CodePoints × Rest cs) := stringBody ('"' :: cs) cs

/-! ## Numbers and literals -/

/-- Digits, possibly none. -/
def digits (cs : List Char) : List Char × List Char :=
  (cs.takeWhile Char.isDigit, cs.dropWhile Char.isDigit)

/-- A minus sign or nothing. -/
def minusPart : List Char → List Char × List Char
  | '-' :: cs => (['-'], cs)
  | cs => ([], cs)

/-- The digits before the point: a zero, or digits that do not begin with one. -/
def wholePart? : List Char → Option (List Char × List Char)
  | '0' :: cs => some (['0'], cs)
  | c :: cs => if c.isDigit then some (digits (c :: cs)) else none
  | [] => none

/-- The point and the digits behind it; nothing if no digit follows the point. -/
def fractionPart : List Char → List Char × List Char
  | '.' :: c :: cs =>
    if c.isDigit then ('.' :: (digits (c :: cs)).1, (digits (c :: cs)).2) else ([], '.' :: c :: cs)
  | cs => ([], cs)

/-- A sign or nothing. -/
def signPart : List Char → List Char × List Char
  | c :: cs => if c = '+' || c = '-' then ([c], cs) else ([], c :: cs)
  | [] => ([], [])

/-- The exponent; nothing if it has no digits. -/
def exponentPart : List Char → List Char × List Char
  | c :: cs =>
    if c = 'e' || c = 'E' then
      let (sign, behind) := signPart cs
      let (ds, rest) := digits behind
      if ds.isEmpty then ([], c :: cs) else (c :: sign ++ ds, rest)
    else ([], c :: cs)
  | [] => ([], [])

/-- The text of a number. One without a fraction and an exponent has no more digits than a number
may be written with. -/
def number (cs : List Char) : Except Fault (String × List Char) :=
  let (sign, behind) := minusPart cs
  match wholePart? behind with
  | none => .error ⟨.value, cs⟩
  | some (whole, rest) =>
    let (fraction, rest) := fractionPart rest
    let (exponent, rest) := exponentPart rest
    if fraction.isEmpty && exponent.isEmpty && Text.digitLimit < whole.length then
      .error ⟨.longNumber whole.length, cs⟩
    else .ok (String.ofList (sign ++ whole ++ fraction ++ exponent), rest)

theorem length_digits_le (cs : List Char) : (digits cs).2.length ≤ cs.length :=
  (List.dropWhile_sublist _).length_le

theorem length_minusPart_le (cs : List Char) : (minusPart cs).2.length ≤ cs.length := by
  unfold minusPart
  split
  · exact Nat.le_succ _
  · exact Nat.le_refl _

theorem wholePart?_length {cs whole rest : List Char} (h : wholePart? cs = some (whole, rest)) :
    rest.length < cs.length := by
  unfold wholePart? at h
  split at h
  · cases h
    simp
  · next c cs _ =>
    split at h
    · next hc =>
      cases h
      rw [List.dropWhile_cons_of_pos hc]
      exact Nat.lt_succ_of_le (List.dropWhile_sublist _).length_le
    · cases h
  · cases h

theorem length_fractionPart_le (cs : List Char) : (fractionPart cs).2.length ≤ cs.length := by
  unfold fractionPart
  split
  · next c cs =>
    split
    · exact Nat.le_succ_of_le (length_digits_le (c :: cs))
    · exact Nat.le_refl _
  · exact Nat.le_refl _

theorem length_signPart_le (cs : List Char) : (signPart cs).2.length ≤ cs.length := by
  unfold signPart
  split
  · split <;> simp
  · exact Nat.le_refl _

theorem length_exponentPart_le (cs : List Char) : (exponentPart cs).2.length ≤ cs.length := by
  unfold exponentPart
  split
  · next c cs =>
    split
    · have hs := length_signPart_le cs
      have hd := length_digits_le (signPart cs).2
      dsimp only
      split
      · exact Nat.le_refl _
      · simp only [List.length_cons]
        omega
    · exact Nat.le_refl _
  · exact Nat.le_refl _

/-- What is left behind a number is shorter. -/
theorem number_length {cs rest : List Char} {text : String} (h : number cs = .ok (text, rest)) :
    rest.length < cs.length := by
  unfold number at h
  dsimp only at h
  split at h
  · cases h
  · next whole left hw =>
    split at h
    · cases h
    · cases h
      have := length_minusPart_le cs
      have := wholePart?_length hw
      have := length_fractionPart_le left
      have := length_exponentPart_le (fractionPart left).2
      omega

/-- The words that are values. -/
def literals : List (String × Value) :=
  [("null", .null), ("true", .bool true), ("false", .bool false), ("NaN", .number "NaN"),
    ("Infinity", .number "Infinity"), ("-Infinity", .number "-Infinity")]

/-- A word or a number. -/
def scalar (cs : List Char) : Except Fault (Value × List Char) :=
  match literals.find? fun l => l.1.toList.isPrefixOf cs with
  | some (word, value) => .ok (value, cs.drop word.toList.length)
  | none => (number cs).map fun (text, rest) => (.number text, rest)

/-- What is left behind a word or a number is shorter. -/
theorem scalar_length {cs rest : List Char} {v : Value} (h : scalar cs = .ok (v, rest)) :
    rest.length < cs.length := by
  unfold scalar at h
  split at h
  · next word value hf =>
    cases h
    have hp := List.find?_some hf
    have hw : ∀ l ∈ literals, 0 < l.1.toList.length := by decide
    have fits : word.toList.length ≤ cs.length := (List.isPrefixOf_iff_prefix.1 hp).length_le
    have taken : 0 < word.toList.length := hw _ (List.mem_of_find?_eq_some hf)
    rw [List.length_drop]
    omega
  · cases hn : number cs with
    | error fault => rw [hn] at h; cases h
    | ok result =>
      rw [hn] at h
      cases h
      exact number_length hn

/-! ## Values -/

mutual

/-- A value at the front of a text. -/
def value (cs : List Char) : Except Fault (Value × Rest cs) :=
  match cs with
  | '"' :: body => do
    let (s, rest) ← string body
    .ok (.string s, rest.within (by simp))
  | '{' :: body =>
    match afterMark? '}' body with
    | some rest => .ok (.object [], rest.within (by simp))
    | none => do
      have := length_skipSpace_le body
      let (entries, rest) ← entries (skipSpace body)
      .ok (.ofEntries entries, rest.within (by simp; omega))
  | '[' :: body =>
    match afterMark? ']' body with
    | some rest => .ok (.array [], rest.within (by simp))
    | none => do
      have := length_skipSpace_le body
      let (items, rest) ← items (skipSpace body)
      .ok (.array items, rest.within (by simp; omega))
  | cs =>
    match h : scalar cs with
    | .error fault => .error fault
    | .ok (v, rest) => .ok (v, ⟨rest, scalar_length h⟩)
termination_by 2 * cs.length

/-- The entries of an object, up to and including its closing brace. -/
def entries (cs : List Char) : Except Fault (List (CodePoints × Value) × Rest cs) :=
  match cs with
  | '"' :: body => do
    let (key, behind) ← string body
    match afterMark? ':' behind.1 with
    | none => .error ⟨.colon, skipSpace behind.1⟩
    | some colon =>
      have := behind.2
      have := colon.2
      have := length_skipSpace_le colon.1
      let (v, rest) ← value (skipSpace colon.1)
      have := rest.2
      match afterMark? '}' rest.1 with
      | some rest => .ok ([(key, v)], rest.within (by simp; omega))
      | none =>
        match afterMark? ',' rest.1 with
        | none => .error ⟨.comma, skipSpace rest.1⟩
        | some comma =>
          have := comma.2
          have := length_skipSpace_le comma.1
          let (more, rest) ← entries (skipSpace comma.1)
          .ok ((key, v) :: more, rest.within (by simp; omega))
  | cs => .error ⟨.propertyName, cs⟩
termination_by 2 * cs.length + 1

/-- The items of an array, up to and including its closing bracket. -/
def items (cs : List Char) : Except Fault (List Value × Rest cs) := do
  let (v, rest) ← value cs
  have := rest.2
  match afterMark? ']' rest.1 with
  | some rest => .ok ([v], rest.within (by omega))
  | none =>
    match afterMark? ',' rest.1 with
    | none => .error ⟨.comma, skipSpace rest.1⟩
    | some comma =>
      have := comma.2
      have := length_skipSpace_le comma.1
      let (more, rest) ← items (skipSpace comma.1)
      .ok (v :: more, rest.within (by omega))
termination_by 2 * cs.length + 1

end

/-! ## Texts -/

/-- A cause with the offset from 0 and the position at which it arose. -/
structure ReadError where
  cause : ErrorCause
  offset : Nat
  pos : Position
  deriving DecidableEq, Repr

/-- The error in words, with its place; the place of a number that is too long is not told. -/
def ReadError.message (e : ReadError) : String :=
  match e.cause with
  | .longNumber digits => Text.digitLimitMessage digits
  | cause =>
    cause.message ++ ": line " ++ toString e.pos.line ++ " column " ++ toString e.pos.col
      ++ " (char " ++ toString e.offset ++ ")"

/-- A fault as an error of the whole text. -/
def Fault.within (text : List Char) (fault : Fault) : ReadError :=
  let offset := text.length - fault.left.length
  ⟨fault.cause, offset, Position.start.after (text.take offset)⟩

/-- The value that a text consists of. -/
def wholeText (text : List Char) : Except Fault Value := do
  if text.head? = some '\ufeff' then .error ⟨.byteOrderMark, text⟩
  else
    let (v, rest) ← value (skipSpace text)
    let rest := skipSpace rest.1
    if rest.isEmpty then .ok v else .error ⟨.extraData, rest⟩

/-- Reading a JSON text. -/
def read (text : List Char) : Except ReadError Value :=
  (wholeText text).mapError (Fault.within text)

end Typings.Json
