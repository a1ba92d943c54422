/-!
# UTF-8

Decoding bytes to characters. Only shortest forms of code points outside the surrogate range are
accepted. What is wrong with a malformed sequence, and which bytes of it are to blame, is part of
the answer.
-/

namespace Typings.Text

/-- What is wrong with a sequence of bytes. -/
inductive Utf8Cause where
  | startByte
  | continuationByte
  | endOfData
  deriving DecidableEq, Repr

/-- The first malformed sequence: where it starts, its first byte, and how many bytes are to
blame. -/
structure Utf8Fault where
  cause : Utf8Cause
  start : Nat
  first : UInt8
  length : Nat
  deriving DecidableEq, Repr

/-- What a first byte announces: the value it carries, how many bytes follow it, and the bounds of
the byte after it, which exclude longer forms, surrogates and code points above the last. -/
structure Utf8Lead where
  value : Nat
  more : Nat
  low : Nat
  high : Nat

/-- The announcement of a first byte, if it may come first. -/
def Utf8Lead.ofByte? (b : UInt8) : Option Utf8Lead :=
  let n := b.toNat
  if n < 0x80 then some ⟨n, 0, 0x80, 0xbf⟩
  else if n < 0xc2 then none
  else if n < 0xe0 then some ⟨n - 0xc0, 1, 0x80, 0xbf⟩
  else if n < 0xf0 then
    some ⟨n - 0xe0, 2, if n = 0xe0 then 0xa0 else 0x80, if n = 0xed then 0x9f else 0xbf⟩
  else if n < 0xf5 then
    some ⟨n - 0xf0, 3, if n = 0xf0 then 0x90 else 0x80, if n = 0xf4 then 0x8f else 0xbf⟩
  else none

/-- Reading `more` further bytes onto a value: the value and what is left, or the cause and how many
bytes had been read. -/
def utf8Tail : (more value low high taken : Nat) → List UInt8 →
    Except (Utf8Cause × Nat) (Nat × List UInt8)
  | 0, value, _, _, _, bytes => .ok (value, bytes)
  | _ + 1, _, _, _, taken, [] => .error (.endOfData, taken)
  | more + 1, value, low, high, taken, b :: bytes =>
    if low ≤ b.toNat && b.toNat ≤ high then
      utf8Tail more (value * 64 + (b.toNat - 0x80)) 0x80 0xbf (taken + 1) bytes
    else .error (.continuationByte, taken)

/-- What is left after a character is part of what there was. -/
theorem utf8Tail_length {more value low high taken : Nat} {bytes rest : List UInt8} {n : Nat}
    (h : utf8Tail more value low high taken bytes = .ok (n, rest)) :
    rest.length ≤ bytes.length := by
  fun_induction utf8Tail more value low high taken bytes with
  | case1 => cases h; exact Nat.le_refl _
  | case2 => cases h
  | case3 more value low high taken b bytes _ ih => exact Nat.le_succ_of_le (ih h)
  | case4 => cases h

/-- Decoding bytes that start at a given offset. -/
def utf8From (start : Nat) (bytes : List UInt8) : Except Utf8Fault (List Char) :=
  match bytes with
  | [] => .ok []
  | b :: bytes =>
    match Utf8Lead.ofByte? b with
    | none => .error ⟨.startByte, start, b, 1⟩
    | some lead =>
      match h : utf8Tail lead.more lead.value lead.low lead.high 1 bytes with
      | .error (cause, taken) => .error ⟨cause, start, b, taken⟩
      | .ok (n, rest) => do
        have := utf8Tail_length h
        let chars ← utf8From (start + 1 + lead.more) rest
        .ok (Char.ofNat n :: chars)
termination_by bytes.length

/-- The characters that the bytes encode. -/
def decodeUtf8 (bytes : List UInt8) : Except Utf8Fault (List Char) := utf8From 0 bytes

/-- A byte as two hexadecimal digits. -/
def byteDigits (b : UInt8) : String :=
  String.ofList [Nat.digitChar (b.toNat / 16), Nat.digitChar (b.toNat % 16)]

/-- The words for a cause. -/
def Utf8Cause.message : Utf8Cause → String
  | .startByte => "invalid start byte"
  | .continuationByte => "invalid continuation byte"
  | .endOfData => "unexpected end of data"

/-- The fault in words: a single byte is shown, several are given by their first and last offset. -/
def Utf8Fault.message (fault : Utf8Fault) : String :=
  "'utf-8' codec can't decode "
    ++ (if fault.length = 1 then
          "byte 0x" ++ byteDigits fault.first ++ " in position " ++ toString fault.start
        else
          "bytes in position " ++ toString fault.start ++ "-"
            ++ toString (fault.start + fault.length - 1))
    ++ ": " ++ fault.cause.message

end Typings.Text
