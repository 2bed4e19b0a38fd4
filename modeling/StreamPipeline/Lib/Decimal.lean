import StreamPipeline.Lib.Bytes

/-!
# Decimal text of machine integers

`%ld` prints a signed word in base ten and `strtol` reads one back: it skips white space,
takes an optional sign, reads the longest run of digits and saturates at the ends of the word.
The digit arithmetic is the core library's; this module carries it over to bytes.
-/

namespace StreamPipeline

/-- A decimal digit. -/
def isDigit (byte : UInt8) : Bool := 48 ≤ byte && byte ≤ 57

/-- `isspace` in the C locale. -/
def isSpace (byte : UInt8) : Bool := byte == 32 || (9 ≤ byte && byte ≤ 13)

/-- The decimal digits of a natural, most significant first. -/
def digits (value : Nat) : Bytes := (Nat.toDigits 10 value).map fun c => UInt8.ofNat c.toNat

/-- The value of a run of digits after an accumulated value. -/
def readDigits (text : Bytes) (start : Nat) : Nat :=
  text.foldl (fun sofar digit => 10 * sofar + (digit.toNat - 48)) start

/-- `%ld`, `%lld` and, for a nonnegative value, `PRIu64`. -/
def decimal (value : Int) : Bytes :=
  if value < 0 then 45 :: digits value.natAbs else digits value.natAbs

/-- The ends of the word are returned for values outside it, as `strtol` does with `ERANGE`. -/
def saturate (value : Int) : Int64 :=
  if value < -2 ^ 63 then Int64.minValue
  else if 2 ^ 63 ≤ value then Int64.maxValue
  else Int64.ofInt value

/-- The optional sign `strtol` accepts, and the text after it. -/
def splitSign : Bytes → Bool × Bytes
  | 45 :: text => (true, text)
  | 43 :: text => (false, text)
  | text => (false, text)

/-- `strtol` in base ten with the text it stops at; `none` when it reads no digit. -/
def strtol (text : Bytes) : Option (Int64 × Bytes) :=
  let body := splitSign (text.dropWhile isSpace)
  let run := body.2.takeWhile isDigit
  if run = [] then none
  else
    let value : Int := readDigits run 0
    some (saturate (if body.1 then -value else value), body.2.dropWhile isDigit)

/-- `strtoll` in base ten where a value outside the word is refused, as the test of `errno` does
it. -/
def strtolExact (text : Bytes) : Option (Int64 × Bytes) :=
  let body := splitSign (text.dropWhile isSpace)
  let value : Int := readDigits (body.2.takeWhile isDigit) 0
  let signed := if body.1 then -value else value
  if -2 ^ 63 ≤ signed ∧ signed < 2 ^ 63 then strtol text else none

/-- `strtoul` in base ten with its error flag and the text it stops at; `none` when it reads no
digit. A minus sign negates in the word, a magnitude outside it saturates with `ERANGE`. -/
def strtoul (text : Bytes) : Option (UInt64 × Bool × Bytes) :=
  let body := splitSign (text.dropWhile isSpace)
  let run := body.2.takeWhile isDigit
  if run = [] then none
  else
    let magnitude := readDigits run 0
    let rest := body.2.dropWhile isDigit
    if 2 ^ 64 ≤ magnitude then some (18446744073709551615, true, rest)
    else some (if body.1 then -UInt64.ofNat magnitude else .ofNat magnitude, false, rest)

/-- The integer a text spells from white space, a sign and digits alone. -/
def spelled (text : Bytes) : Option Int :=
  let body := splitSign (text.dropWhile isSpace)
  if body.2 ≠ [] ∧ body.2.all isDigit then
    some (if body.1 then -(readDigits body.2 0 : Int) else readDigits body.2 0)
  else none

/-- The codes of digit characters survive the conversion to a byte. -/
private theorem toNat_ofNat_digit {c : Char} (digit : c.isDigit = true) :
    (UInt8.ofNat c.toNat).toNat = c.toNat := by
  have bound : c.toNat ≤ 57 := by
    simp only [Char.isDigit, Bool.and_eq_true, decide_eq_true_eq, UInt32.le_iff_toNat_le] at digit
    exact digit.2
  simp only [UInt8.toNat_ofNat']
  omega

/-- Printed digits are digits. -/
theorem isDigit_of_mem_digits {value : Nat} {byte : UInt8} (member : byte ∈ digits value) :
    isDigit byte = true := by
  obtain ⟨c, inside, rfl⟩ := List.mem_map.mp member
  have digit := Nat.isDigit_of_mem_toDigits (by decide) (by decide) inside
  have code := toNat_ofNat_digit digit
  simp only [Char.isDigit, Bool.and_eq_true, decide_eq_true_eq, UInt32.le_iff_toNat_le] at digit
  simp only [isDigit, Bool.and_eq_true, decide_eq_true_eq, UInt8.le_iff_toNat_le, code]
  exact digit

/-- A natural has at least one digit. -/
theorem digits_ne_nil (value : Nat) : digits value ≠ [] := by
  simp [digits, Nat.toDigits_ne_nil]

/-- Reading the printed digits returns the value. -/
@[simp]
theorem readDigits_digits (value : Nat) : readDigits (digits value) 0 = value := by
  have same : ∀ (text : List Char) (start : Nat), (∀ c ∈ text, c.isDigit = true) →
      readDigits (text.map fun c => UInt8.ofNat c.toNat) start =
        Nat.ofDigitChars 10 text start := by
    intro text
    induction text with
    | nil => simp [readDigits]
    | cons c text ih =>
      intro start allDigits
      have tail := ih (10 * start + (c.toNat - 48)) fun d member => allDigits d (by simp [member])
      have code := toNat_ofNat_digit (allDigits c (by simp))
      simp only [readDigits, List.map_cons, List.foldl_cons, code] at tail ⊢
      rw [Nat.ofDigitChars_cons]
      exact tail
  rw [digits, same _ _ fun c member => Nat.isDigit_of_mem_toDigits (by decide) (by decide) member,
    Nat.ofDigitChars_ten_toDigits]

/-- A printed integer is a sign or a digit followed by digits. -/
theorem mem_decimal {value : Int} {byte : UInt8} (member : byte ∈ decimal value) :
    byte = 45 ∨ isDigit byte = true := by
  unfold decimal at member
  split at member
  · rcases List.mem_cons.mp member with sign | digit
    · exact .inl sign
    · exact .inr (isDigit_of_mem_digits digit)
  · exact .inr (isDigit_of_mem_digits member)

/-- No byte below the sign and the digits appears in a printed integer. -/
theorem not_mem_decimal (value : Int) {byte : UInt8} (small : byte < 43) :
    byte ∉ decimal value := by
  intro member
  rcases mem_decimal member with rfl | digit
  · exact absurd small (by decide)
  · simp only [isDigit, Bool.and_eq_true, decide_eq_true_eq, UInt8.le_iff_toNat_le] at digit
    simp only [UInt8.lt_iff_toNat_lt, UInt8.reduceToNat] at small digit
    omega

/-- A word is inside its own range. -/
theorem saturate_toInt (value : Int64) : saturate value.toInt = value := by
  have lower := value.le_toInt
  have upper := value.toInt_lt
  rw [saturate, if_neg (by omega), if_neg (by omega), Int64.ofInt_toInt]

/-- A digit run is neither white space nor a sign. -/
theorem digits_head (value : Nat) (rest : Bytes) :
    ∃ head tail, digits value ++ rest = head :: tail ∧ isDigit head = true := by
  obtain ⟨head, tail, same⟩ := List.exists_cons_of_ne_nil (digits_ne_nil value)
  exact ⟨head, tail ++ rest, by rw [same]; rfl,
    isDigit_of_mem_digits (by rw [same]; exact List.mem_cons_self)⟩

/-- A digit is not white space. -/
theorem isSpace_of_isDigit {byte : UInt8} (digit : isDigit byte = true) :
    isSpace byte = false := by
  simp only [isDigit, isSpace, Bool.and_eq_true, decide_eq_true_eq, UInt8.le_iff_toNat_le,
    Bool.or_eq_false_iff, beq_eq_false_iff_ne, ne_eq, ← UInt8.toNat_inj,
    Bool.and_eq_false_iff, decide_eq_false_iff_not] at digit ⊢
  simp only [UInt8.reduceToNat] at digit ⊢
  omega

/-- A digit is not a sign. -/
theorem ne_sign_of_isDigit {byte : UInt8} (digit : isDigit byte = true) :
    byte ≠ 45 ∧ byte ≠ 43 := by
  constructor <;> rintro rfl <;> simp [isDigit] at digit

/-- The digits of a natural are read up to the first byte that is not a digit. -/
theorem digits_takeWhile (value : Nat) {rest : Bytes}
    (stops : ∀ byte ∈ rest.head?, isDigit byte = false) :
    (digits value ++ rest).takeWhile isDigit = digits value ∧
      (digits value ++ rest).dropWhile isDigit = rest := by
  have all : ∀ byte ∈ digits value, isDigit byte = true := fun _ => isDigit_of_mem_digits
  rw [List.takeWhile_append_of_pos all, List.dropWhile_append_of_pos all]
  cases rest with
  | nil => simp
  | cons byte rest =>
    have stop := stops byte (by simp)
    simp [stop]

/-- `strtol` reads back what `%ld` printed and stops right after it. -/
theorem strtol_decimal (value : Int64) {rest : Bytes}
    (stops : ∀ byte ∈ rest.head?, isDigit byte = false) :
    strtol (decimal value.toInt ++ rest) = some (value, rest) := by
  obtain ⟨taken, dropped⟩ := digits_takeWhile value.toInt.natAbs stops
  have run := digits_ne_nil value.toInt.natAbs
  by_cases negative : value.toInt < 0
  · have magnitude : -(value.toInt.natAbs : Int) = value.toInt := by omega
    have body : splitSign ((45 :: (digits value.toInt.natAbs ++ rest)).dropWhile isSpace) =
        (true, digits value.toInt.natAbs ++ rest) := by simp [splitSign, isSpace]
    simp only [strtol, decimal, negative, ↓reduceIte, List.cons_append, body, taken, dropped, run,
      readDigits_digits, magnitude, saturate_toInt]
  · have magnitude : (value.toInt.natAbs : Int) = value.toInt := by omega
    obtain ⟨head, tail, same, digit⟩ := digits_head value.toInt.natAbs rest
    obtain ⟨minus, plus⟩ := ne_sign_of_isDigit digit
    have body : splitSign ((digits value.toInt.natAbs ++ rest).dropWhile isSpace) =
        (false, digits value.toInt.natAbs ++ rest) := by
      rw [same, List.dropWhile_cons, isSpace_of_isDigit digit]
      simp [splitSign, minus, plus]
    simp only [strtol, decimal, negative, ↓reduceIte, body, taken, dropped, run,
      readDigits_digits, Bool.false_eq_true, magnitude, saturate_toInt]

/-- `strtol` reads a whole printed word. -/
theorem strtol_decimal_end (value : Int64) : strtol (decimal value.toInt) = some (value, []) := by
  have whole : strtol (decimal value.toInt ++ []) = some (value, []) :=
    strtol_decimal value (by simp)
  rwa [List.append_nil] at whole

/-- A byte `strtol` can read: white space, a sign or a digit. -/
def isNumeric (byte : UInt8) : Bool :=
  isSpace byte || byte == 45 || byte == 43 || isDigit byte

/-- What is behind the optional sign is all but the sign. -/
theorem mem_splitSign {text : Bytes} {byte : UInt8} (member : byte ∈ text) :
    byte = 45 ∨ byte = 43 ∨ byte ∈ (splitSign text).2 := by
  unfold splitSign
  split
  · exact (List.mem_cons.mp member).imp_right .inr
  · exact .inr (List.mem_cons.mp member)
  · exact .inr (.inr member)

/-- A text `strtol` reads to its end is numeric throughout. -/
theorem isNumeric_of_strtol {text : Bytes} {value : Int64} (read : strtol text = some (value, []))
    {byte : UInt8} (member : byte ∈ text) : isNumeric byte = true := by
  simp only [strtol] at read
  split at read
  · contradiction
  · have rest := (Prod.mk.inj (Option.some.inj read)).2
    have all := List.dropWhile_eq_nil_iff.mp rest
    rw [← List.takeWhile_append_dropWhile (p := isSpace) (l := text)] at member
    rcases List.mem_append.mp member with space | body
    · simp [isNumeric, List.mem_takeWhile_imp space]
    · rcases mem_splitSign body with rfl | rfl | digit
      · rfl
      · rfl
      · simp [isNumeric, all byte digit]

/-! ## Integers in a text -/

/-- What is behind the sign of a text that spells an integer. -/
theorem spelled_eq_some {text : Bytes} {value : Int} (spells : spelled text = some value) :
    ∃ negative run, splitSign (text.dropWhile isSpace) = (negative, run) ∧ run ≠ [] ∧
      (∀ byte ∈ run, isDigit byte = true) ∧
      value = if negative then -(readDigits run 0 : Int) else readDigits run 0 := by
  rw [spelled] at spells
  rcases shape : splitSign (text.dropWhile isSpace) with ⟨negative, run⟩
  rw [shape] at spells
  by_cases whole : run ≠ [] ∧ run.all isDigit = true
  · rw [if_pos whole, Option.some.injEq] at spells
    exact ⟨negative, run, rfl, whole.1, List.all_eq_true.mp whole.2, spells.symm⟩
  · rw [if_neg whole] at spells
    contradiction

/-- `strtoul` on such a text. -/
theorem strtoul_spelled {text run : Bytes} {negative : Bool}
    (shape : splitSign (text.dropWhile isSpace) = (negative, run)) (filled : run ≠ [])
    (clean : ∀ byte ∈ run, isDigit byte = true) :
    strtoul text =
      if 2 ^ 64 ≤ readDigits run 0 then some (18446744073709551615, true, [])
      else
        some (if negative then -UInt64.ofNat (readDigits run 0) else .ofNat (readDigits run 0),
          false, []) := by
  have taken := List.takeWhile_eq_self_iff.mpr clean
  have dropped := List.dropWhile_eq_nil_iff.mpr clean
  simp only [strtoul, shape, taken, dropped, if_neg filled]

/-- A text with digits and nothing else behind its sign spells an integer. -/
theorem isSome_spelled {text : Bytes}
    (filled : (splitSign (text.dropWhile isSpace)).2.takeWhile isDigit ≠ [])
    (whole : (splitSign (text.dropWhile isSpace)).2.dropWhile isDigit = []) :
    (spelled text).isSome = true := by
  have clean := List.dropWhile_eq_nil_iff.mp whole
  have some : (splitSign (text.dropWhile isSpace)).2 ≠ [] := by
    intro empty
    rw [empty] at filled
    exact filled rfl
  rw [spelled, if_pos ⟨some, List.all_eq_true.mpr clean⟩]
  rfl

/-- A text that `strtoul` reads to its end spells an integer. -/
theorem spelled_of_strtoul {text : Bytes} {n : UInt64} {failed : Bool}
    (read : strtoul text = some (n, failed, [])) : (spelled text).isSome = true := by
  simp only [strtoul] at read
  by_cases none : (splitSign (text.dropWhile isSpace)).2.takeWhile isDigit = []
  · rw [if_pos none] at read
    contradiction
  · apply isSome_spelled none
    rw [if_neg none] at read
    split at read <;> exact (Prod.mk.inj (Prod.mk.inj (Option.some.inj read)).2).2

/-- A text that `strtol` reads to its end spells an integer. -/
theorem spelled_of_strtol {text : Bytes} {value : Int64}
    (read : strtol text = some (value, [])) : (spelled text).isSome = true := by
  simp only [strtol] at read
  by_cases none : (splitSign (text.dropWhile isSpace)).2.takeWhile isDigit = []
  · rw [if_pos none] at read
    contradiction
  · apply isSome_spelled none
    rw [if_neg none] at read
    exact (Prod.mk.inj (Option.some.inj read)).2

/-- `strtol` on such a text. -/
theorem strtol_spelled {text : Bytes} {value : Int} (spells : spelled text = some value) :
    strtol text = some (saturate value, []) := by
  obtain ⟨negative, run, shape, filled, clean, same⟩ := spelled_eq_some spells
  have taken := List.takeWhile_eq_self_iff.mpr clean
  have dropped := List.dropWhile_eq_nil_iff.mpr clean
  simp only [strtol, shape, taken, dropped, if_neg filled, same]

/-- The word of an integer is the integer, or the end of the word on its side. -/
theorem toInt_saturate (value : Int) :
    (saturate value).toInt = max (-2 ^ 63) (min value (2 ^ 63 - 1)) := by
  rw [saturate]
  by_cases below : value < -2 ^ 63
  · rw [if_pos below, Int64.toInt_minValue]
    omega
  · by_cases above : 2 ^ 63 ≤ value
    · rw [if_neg below, if_pos above, Int64.toInt_maxValue]
      omega
    · rw [if_neg below, if_neg above, Int64.toInt_ofInt_of_le (by omega) (by omega)]
      omega

/-- `strtoll` on such a text: its integer, when that fits the word. -/
theorem strtolExact_spelled {text : Bytes} {value : Int} (spells : spelled text = some value) :
    strtolExact text =
      if -2 ^ 63 ≤ value ∧ value < 2 ^ 63 then some (.ofInt value, []) else none := by
  have read := strtol_spelled spells
  have ⟨negative, run, shape, _, clean, same⟩ := spelled_eq_some spells
  have taken := List.takeWhile_eq_self_iff.mpr clean
  rw [strtolExact, shape]
  simp only [taken, ← same]
  by_cases fits : -2 ^ 63 ≤ value ∧ value < 2 ^ 63
  · have low : ¬value < -2 ^ 63 := by omega
    have high : ¬2 ^ 63 ≤ value := by omega
    rw [if_pos fits, if_pos fits, read, saturate, if_neg low, if_neg high]
  · rw [if_neg fits, if_neg fits]

/-- A text that `strtoll` reads to its end spells an integer. -/
theorem spelled_of_strtolExact {text : Bytes} {value : Int64}
    (read : strtolExact text = some (value, [])) : (spelled text).isSome = true := by
  have either : strtolExact text = strtol text ∨ strtolExact text = none := ite_eq_or_eq _ _ _
  rcases either with same | none
  · rw [same] at read
    exact spelled_of_strtol read
  · rw [none] at read
    contradiction

/-! ## Words as strings -/

/-- Distinct words have distinct decimal texts. -/
theorem decimal_injective {left right : Int64}
    (same : decimal left.toInt = decimal right.toInt) : left = right := by
  have first := strtol_decimal_end left
  rw [same, strtol_decimal_end right] at first
  exact (Prod.mk.inj (Option.some.inj first)).1.symm

/-- The decimal text of a word as a string. -/
def CStr.ofWord (value : Int64) : CStr :=
  ⟨decimal value.toInt, not_mem_decimal _ (by decide)⟩

end StreamPipeline
