import Typings.Text.Quoted
import Typings.Unicode.Numeral

/-!
# Decimal numbers

Reading a number from decimal digits of any script. As the work grows with the square of the length,
a number may be written with so many digits and no more; leading zeros count. The digits at the start
of a text are counted before anything behind them is looked at.
-/

namespace Typings.Text

/-- The most digits with which a number may be written. -/
def digitLimit : Nat := 4300

/-- There are more digits than a number may be written with: so many. -/
def digitLimitMessage (digits : Nat) : String :=
  "Exceeds the limit (" ++ toString digitLimit
    ++ " digits) for integer string conversion: value has " ++ toString digits
    ++ " digits; use sys.set_int_max_str_digits() to increase the limit"

/-- Why a text is not read as a number: too many digits, or a character that is no decimal digit. -/
inductive DecimalFault where
  | tooLong (digits : Nat)
  | notDecimal
  deriving DecidableEq, Repr

/-- The fault of a text in words. The quoted text is cut after so many characters, its opening quote
among them. -/
def DecimalFault.message (text : String) : DecimalFault → String
  | .tooLong digits => digitLimitMessage digits
  | .notDecimal =>
    "invalid literal for int() with base 10: " ++ String.ofList ((quoted text).toList.take 200)

/-- The values of the decimal digits at the start of a text. -/
def leadingDigits : List Char → List Nat
  | [] => []
  | c :: cs =>
    match Unicode.decimalValue? c with
    | some d => d :: leadingDigits cs
    | none => []

/-- The number with the given digits, the most significant first. -/
def ofDigits (digits : List Nat) : Nat := digits.foldl (fun n d => 10 * n + d) 0

/-- The number that a text writes. -/
def readDecimal (cs : List Char) : Except DecimalFault Nat :=
  let digits := leadingDigits cs
  if digitLimit < digits.length then .error (.tooLong digits.length)
  else if digits.length = cs.length then .ok (ofDigits digits)
  else .error .notDecimal

end Typings.Text
