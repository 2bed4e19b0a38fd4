import StreamPipeline.Lib.Binary64
import StreamPipeline.Lib.Decimal

/-!
# Text of double precision numbers

`strtod` skips white space, takes an optional sign and reads the longest text of a number:
decimal or hexadecimal digits with a point and an exponent, or the name of an infinity or of no
number. The number is rounded once, from the value the text denotes.
-/

namespace StreamPipeline

/-- A hexadecimal digit. -/
def isHexDigit (byte : UInt8) : Bool :=
  isDigit byte || (97 ≤ byte && byte ≤ 102) || (65 ≤ byte && byte ≤ 70)

/-- The value of a hexadecimal digit. -/
def hexValue (byte : UInt8) : Nat :=
  if isDigit byte then byte.toNat - 48
  else if 97 ≤ byte then byte.toNat - 87
  else byte.toNat - 55

/-- The value of a run of hexadecimal digits after an accumulated value. -/
def readHexDigits (text : Bytes) (start : Nat) : Nat :=
  text.foldl (fun sofar digit => 16 * sofar + hexValue digit) start

/-- The text after a word that stands in front in either case. -/
def dropWord (word text : Bytes) : Option Bytes :=
  let lower := fun byte : UInt8 => if 65 ≤ byte && byte ≤ 90 then byte + 32 else byte
  if (text.take word.length).map lower = word then some (text.drop word.length) else none

/-- The digits in front of a text, those after a point, and the text after them. -/
def splitPoint (digit : UInt8 → Bool) (text : Bytes) : Bytes × Bytes × Bytes :=
  match text.dropWhile digit with
  | 46 :: rest => (text.takeWhile digit, rest.takeWhile digit, rest.dropWhile digit)
  | rest => (text.takeWhile digit, [], rest)

/-- The exponent behind its mark, zero where there is none. -/
def readExponent (mark : UInt8) : Bytes → Int
  | [] => 0
  | first :: rest =>
    let body := splitSign rest
    let value : Int := readDigits (body.2.takeWhile isDigit) 0
    if first = mark ∨ first + 32 = mark then if body.1 then -value else value else 0

/-- The value of hexadecimal digits behind `0x`. -/
def readHex (text : Bytes) : Option Rat :=
  (dropWord (ascii "0x") text).bind fun text =>
    let (whole, fraction, rest) := splitPoint isHexDigit text
    if whole ++ fraction = [] then none
    else
      some (readHexDigits (whole ++ fraction) 0 *
        2 ^ (readExponent 112 rest - 4 * fraction.length))

/-- The value of decimal digits. -/
def readDecimal (text : Bytes) : Option Rat :=
  let (whole, fraction, rest) := splitPoint isDigit text
  if whole ++ fraction = [] then none
  else some (readDigits (whole ++ fraction) 0 * 10 ^ (readExponent 101 rest - fraction.length))

/-- The name of an infinity or of no number. -/
def readName (negative : Bool) (text : Bytes) : Option Binary64 :=
  if (dropWord (ascii "inf") text).isSome then some (.infinite negative)
  else if (dropWord (ascii "nan") text).isSome then some .nan
  else none

/-- `strtod` without an end pointer; none when it reads no number. -/
def strtod (text : Bytes) : Option Binary64 :=
  let body := splitSign (text.dropWhile isSpace)
  match (readHex body.2).or (readDecimal body.2) with
  | some exact => some (.nearest (if body.1 then -exact else exact))
  | none => readName body.1 body.2

/-- `atof`, zero for a text that starts with no number. -/
def atof (text : CStr) : Binary64 := (strtod text.bytes).getD (.finite 0)

/-- A text of digits is the number they spell. -/
theorem readDecimal_digits {run : Bytes} (filled : run ≠ [])
    (clean : ∀ byte ∈ run, isDigit byte = true) :
    readDecimal run = some (readDigits run 0 : Nat) := by
  have taken := List.takeWhile_eq_self_iff.mpr clean
  have dropped := List.dropWhile_eq_nil_iff.mpr clean
  simp [readDecimal, splitPoint, taken, dropped, filled, readExponent]

/-- No text of decimal digits starts a hexadecimal number. -/
theorem readHex_digits {run : Bytes} (clean : ∀ byte ∈ run, isDigit byte = true) :
    readHex run = none := by
  have other : dropWord (ascii "0x") run = none := by
    match run, clean with
    | [], _ => rfl
    | [_], _ => simp [dropWord, ascii]
    | first :: second :: _, clean =>
      have digit := clean second (by simp)
      have small : second ≠ 120 ∧ second + 32 ≠ 120 := by
        constructor
        · rintro rfl
          exact absurd digit (by decide)
        · intro mark
          have letter : second = 120 - 32 := by rw [← mark, UInt8.add_sub_cancel]
          rw [letter] at digit
          exact absurd digit (by decide)
      rw [dropWord, if_neg]
      simp only [ascii]
      intro same
      have last := congrArg List.tail same
      simp at last
      split at last
      · exact small.2 last
      · exact small.1 last
  rw [readHex, other, Option.bind_none]

/-- `strtod` reads white space, a sign and digits as the nearest double of the integer. -/
theorem strtod_integer {text run : Bytes} {negative : Bool}
    (shape : splitSign (text.dropWhile isSpace) = (negative, run)) (filled : run ≠ [])
    (clean : ∀ byte ∈ run, isDigit byte = true) :
    strtod text =
      some (.nearest ((if negative then -readDigits run 0 else readDigits run 0 : Int) : Rat)) := by
  simp only [strtod, shape, readHex_digits clean, readDecimal_digits filled clean, Option.none_or]
  cases negative <;> simp

end StreamPipeline
