import StreamPipeline.Lib.Json

/-!
# JSON tokens

A token reads as its value in front of any text that may follow it inside an array or an object.
Strings without escapes, decimal integers and the words are tokens, and tokens compose to arrays
and objects. Where a string is not plain, `readChars_quoted` says what a reader makes of it.
-/

namespace StreamPipeline.Json

/-- A text that stands for itself inside a string. -/
def Plain (text : Bytes) : Prop := ∀ byte ∈ text, byte ≠ 34 ∧ byte ≠ 92 ∧ 32 ≤ byte

instance (text : Bytes) : Decidable (Plain text) := List.decidableBAll _ text

/-- A text without control bytes. -/
def Printable (text : Bytes) : Prop := ∀ byte ∈ text, 32 ≤ byte

instance (text : Bytes) : Decidable (Printable text) := List.decidableBAll _ text

/-- The text continues an array or an object, or is at its end. -/
def Stops (rest : Bytes) : Prop := ∀ byte ∈ rest.head?, byte = 44 ∨ byte = 125 ∨ byte = 93

/-- The text is the token of a value: it is read off the front of any continuation. -/
def Reads (token : Bytes) (value : Json) : Prop :=
  ∀ fuel rest, token.length < fuel → Stops rest →
    readValue fuel (token ++ rest) = some (value, rest)

/-! ## Strings -/

/-- A plain text is read up to the quote behind it. -/
theorem readChars_plain {text : Bytes} (plain : Plain text) {fuel : Nat}
    (enough : text.length < fuel) (rest : Bytes) :
    readChars fuel (text ++ 34 :: rest) = some (text, rest) := by
  induction text generalizing fuel with
  | nil =>
    obtain ⟨fuel, rfl⟩ := Nat.exists_eq_add_one.mpr enough
    rfl
  | cons byte text ih =>
    obtain ⟨fuel, rfl⟩ := Nat.exists_eq_add_one.mpr (Nat.zero_lt_of_lt enough)
    obtain ⟨quote, back, printable⟩ := plain byte List.mem_cons_self
    have later := ih (fun other member => plain other (List.mem_cons_of_mem _ member))
      (Nat.lt_of_succ_lt_succ enough)
    rw [List.cons_append, readChars, if_neg quote, if_neg back,
      if_neg (UInt8.not_lt.mpr printable), later]
    rfl

/-- A hexadecimal digit is neither a control byte nor a quote. -/
theorem hexDigit_large {c : UInt8} {value : Nat} (digit : hexDigit c = some value) : 48 ≤ c := by
  rw [UInt8.le_iff_toNat_le]
  simp only [hexDigit, UInt8.le_iff_toNat_le, Bool.and_eq_true, decide_eq_true_eq] at digit
  simp only [UInt8.reduceToNat] at digit ⊢
  by_contra small
  rw [if_neg (by omega), if_neg (by omega), if_neg (by omega)] at digit
  contradiction

/-- What `hex4` takes off a text: four digits, whatever follows them. -/
theorem hex4_used {text rest : Bytes} {code : Nat} (read : hex4 text = some (code, rest)) :
    ∃ used, text = used ++ rest ∧ used.length = 4 ∧ (∀ byte ∈ used, 48 ≤ byte) ∧
      ∀ more, hex4 (used ++ more) = some (code, more) := by
  match text with
  | a :: b :: c :: d :: tail =>
    simp only [hex4, Option.bind_eq_bind, Option.bind_eq_some_iff, Option.some.injEq,
      Prod.mk.injEq] at read
    obtain ⟨first, high, second, upper, third, lower, fourth, low, same, rfl⟩ := read
    refine ⟨[a, b, c, d], rfl, rfl, ?_, ?_⟩
    · simp only [List.mem_cons, List.not_mem_nil, or_false]
      rintro byte (rfl | rfl | rfl | rfl)
      · exact hexDigit_large high
      · exact hexDigit_large upper
      · exact hexDigit_large lower
      · exact hexDigit_large low
    · intro more
      simp [hex4, high, upper, lower, low, same]
  | [] | [_] | [_, _] | [_, _, _] => contradiction

/-- A code point takes at most four bytes. -/
theorem length_utf8 (code : Nat) : (utf8 code).length ≤ 4 := by
  unfold utf8
  split
  · simp
  · split
    · simp
    · split <;> simp

/-- What an escape takes off a text: bytes that are no control bytes, a quote only alone, and at
least as many as it stands for. -/
structure EscapeUsed (text decoded rest used : Bytes) : Prop where
  split : text = used ++ rest
  nonempty : used ≠ []
  printable : ∀ byte ∈ used, 32 ≤ byte
  quote : 34 ∈ used → used = [34]
  shorter : decoded.length ≤ used.length
  again : ∀ more, readEscape (used ++ more) = some (decoded, more)

/-- Bytes from the digits on are printable and no quotes. -/
private theorem printable_of_large {used : Bytes} (large : ∀ byte ∈ used, 48 ≤ byte) :
    (∀ byte ∈ used, 32 ≤ byte) ∧ 34 ∉ used := by
  constructor
  · intro byte member
    exact UInt8.le_trans (by decide) (large byte member)
  · intro member
    exact absurd (large 34 member) (by decide)

/-- What the low half of a surrogate pair takes off a text. -/
theorem lowSurrogate_used {high : Nat} {text decoded rest : Bytes}
    (read : lowSurrogate high text = some (decoded, rest)) :
    ∃ used, text = used ++ rest ∧ used.length = 6 ∧ (∀ byte ∈ used, 48 ≤ byte) ∧
      decoded.length ≤ 4 ∧ ∀ more, lowSurrogate high (used ++ more) = some (decoded, more) := by
  match text with
  | [] | [_] => contradiction
  | back :: letter :: tail =>
    simp only [lowSurrogate] at read
    split at read
    · rename_i mark
      obtain ⟨rfl, rfl⟩ := mark
      cases digits : hex4 tail with
      | none => simp [digits] at read
      | some pair =>
        obtain ⟨low, left⟩ := pair
        obtain ⟨used, rfl, four, large, again⟩ := hex4_used digits
        rw [digits] at read
        dsimp only at read
        split at read
        · rename_i range
          obtain ⟨rfl, rfl⟩ := Prod.mk.inj (Option.some.inj read)
          refine ⟨92 :: 117 :: used, rfl, by simp [four], ?_, length_utf8 _, ?_⟩
          · simp only [List.mem_cons, forall_eq_or_imp]
            exact ⟨by decide, by decide, large⟩
          · intro more
            simp only [List.cons_append, lowSurrogate, again, range, and_self, ↓reduceIte]
        · contradiction
    · contradiction

/-- A letter with an escape is printable. -/
theorem simpleEscape_printable {c byte : UInt8} (read : simpleEscape c = some byte) :
    32 ≤ c := by
  unfold simpleEscape at read
  by_contra control
  have small := UInt8.not_le.mp control
  rw [UInt8.lt_iff_toNat_lt] at small
  simp only [Bool.or_eq_true, decide_eq_true_eq, ← UInt8.toNat_inj, UInt8.reduceToNat] at read small
  repeat rw [if_neg (by omega)] at read
  contradiction

/-- Every escape read is of that kind. -/
theorem readEscape_used {text decoded rest : Bytes}
    (read : readEscape text = some (decoded, rest)) :
    ∃ used, EscapeUsed text decoded rest used := by
  match text with
  | [] => contradiction
  | c :: tail =>
    simp only [readEscape] at read
    by_cases unicode : c = 117
    · subst unicode
      rw [if_pos rfl] at read
      cases digits : hex4 tail with
      | none => simp [digits] at read
      | some pair =>
        obtain ⟨code, left⟩ := pair
        obtain ⟨used, rfl, four, large, again⟩ := hex4_used digits
        obtain ⟨printable, quote⟩ := printable_of_large large
        rw [digits] at read
        dsimp only at read
        split at read
        · contradiction
        · rename_i notLow
          split at read
          · rename_i high
            obtain ⟨low, rfl, six, lowLarge, short, lowAgain⟩ := lowSurrogate_used read
            obtain ⟨lowPrintable, lowQuote⟩ := printable_of_large lowLarge
            refine ⟨117 :: (used ++ low), by simp, by simp, ?_, ?_, ?_, ?_⟩
            · simp only [List.mem_cons, List.mem_append]
              rintro byte (rfl | first | second)
              · decide
              · exact printable byte first
              · exact lowPrintable byte second
            · simp [quote, lowQuote]
            · simp only [List.length_cons, List.length_append]
              omega
            · intro more
              rw [List.cons_append, List.append_assoc, readEscape, if_pos rfl, again]
              simp only [notLow, high, and_self, ↓reduceIte, lowAgain]
          · rename_i notHigh
            obtain ⟨rfl, rfl⟩ := Prod.mk.inj (Option.some.inj read)
            refine ⟨117 :: used, rfl, by simp, ?_, ?_, ?_, ?_⟩
            · simp only [List.mem_cons, forall_eq_or_imp]
              exact ⟨by decide, printable⟩
            · simp [quote]
            · have size := length_utf8 code
              simp only [List.length_cons]
              omega
            · intro more
              rw [List.cons_append, readEscape, if_pos rfl, again]
              simp only [notLow, notHigh, ↓reduceIte]
    · rw [if_neg unicode] at read
      obtain ⟨byte, same, pair⟩ := Option.map_eq_some_iff.mp read
      obtain ⟨rfl, rfl⟩ := Prod.mk.inj pair
      refine ⟨[c], rfl, by simp, ?_, ?_, by simp, ?_⟩
      · simp [simpleEscape_printable same]
      · simp only [List.mem_singleton]
        rintro rfl
        rfl
      · intro more
        simp [readEscape, unicode, same]

/-- A string read to its closing quote took printable bytes, and reads the same in front of any
continuation and with any more fuel. -/
theorem readChars_used {fuel : Nat} {text decoded rest : Bytes}
    (read : readChars fuel text = some (decoded, rest)) :
    ∃ used, text = used ++ rest ∧ (∀ byte ∈ used, 32 ≤ byte) ∧
      ∀ more extra, readChars (fuel + extra) (used ++ more) = some (decoded, more) := by
  induction fuel generalizing text decoded with
  | zero => contradiction
  | succ fuel ih =>
    match text with
    | [] => contradiction
    | byte :: tail =>
      simp only [readChars] at read
      split at read
      · rename_i closes
        obtain ⟨rfl, rfl⟩ := Prod.mk.inj (Option.some.inj read)
        refine ⟨[byte], rfl, by simp [closes], ?_⟩
        intro more extra
        rw [Nat.add_right_comm]
        simp [readChars, closes]
      · rename_i quote
        split at read
        · rename_i escapes
          cases escape : readEscape tail with
          | none => simp [escape] at read
          | some pair =>
            obtain ⟨front, left⟩ := pair
            rw [escape] at read
            obtain ⟨later, found, same⟩ := Option.map_eq_some_iff.mp read
            obtain ⟨rfl, rfl⟩ := Prod.mk.inj same
            obtain ⟨first, taken⟩ := readEscape_used escape
            obtain ⟨used, rfl, printable, again⟩ := ih found
            refine ⟨byte :: (first ++ used), by rw [taken.split]; simp, ?_, ?_⟩
            · simp only [List.mem_cons, List.mem_append]
              rintro other (rfl | inside | inside)
              · rw [escapes]
                decide
              · exact taken.printable other inside
              · exact printable other inside
            · intro more extra
              rw [Nat.add_right_comm, List.cons_append, List.append_assoc, readChars, if_neg quote,
                if_pos escapes, taken.again]
              dsimp only
              rw [again]
              rfl
        · rename_i plain
          split at read
          · contradiction
          · rename_i printableByte
            obtain ⟨later, found, same⟩ := Option.map_eq_some_iff.mp read
            obtain ⟨rfl, rfl⟩ := Prod.mk.inj same
            obtain ⟨used, rfl, printable, again⟩ := ih found
            refine ⟨byte :: used, rfl, ?_, ?_⟩
            · simp only [List.mem_cons]
              rintro other (rfl | inside)
              · exact UInt8.not_lt.mp printableByte
              · exact printable other inside
            · intro more extra
              rw [Nat.add_right_comm, List.cons_append, readChars, if_neg quote, if_neg plain,
                if_neg printableByte, again]
              rfl

/-- An escape before a quote is either inside the text or the quote itself is escaped. -/
private theorem readEscape_quoted {text rest front left : Bytes}
    (read : readEscape (text ++ 34 :: rest) = some (front, left)) :
    (text = [] ∧ left = rest) ∨
      ∃ used later, text = used ++ later ∧ left = later ++ 34 :: rest ∧
        front.length ≤ used.length := by
  obtain ⟨used, taken⟩ := readEscape_used read
  rcases List.append_eq_append_iff.mp taken.split with ⟨extra, same, tail⟩ | ⟨later, same, tail⟩
  · cases extra with
    | nil => exact .inr ⟨used, [], by simp [same], by simpa using tail.symm, taken.shorter⟩
    | cons byte extra =>
      obtain ⟨rfl, behind⟩ := List.cons.inj tail
      have only := taken.quote (by simp [same])
      rw [same] at only
      cases text with
      | nil =>
        have nothing : extra = [] := by simpa using only
        rw [nothing] at behind
        exact .inl ⟨rfl, behind.symm⟩
      | cons => simp at only
  · exact .inr ⟨used, later, same, tail, taken.shorter⟩

/-- What a reader makes of a text in quotes. Either the text is plain and stands for itself, or
the string ends inside it or holds an escape, and is shorter, or the closing quote is eaten by a
backslash in front of it, and the string goes on behind. -/
theorem readChars_quoted {fuel : Nat} {text rest decoded left : Bytes}
    (read : readChars fuel (text ++ 34 :: rest) = some (decoded, left)) :
    (Plain text ∧ decoded = text ∧ left = rest) ∨ decoded.length < text.length ∨
      ∃ later fuel, readChars fuel rest = some (later, left) := by
  induction fuel generalizing text decoded with
  | zero => contradiction
  | succ fuel ih =>
    cases text with
    | nil =>
      obtain ⟨rfl, rfl⟩ := Prod.mk.inj (Option.some.inj read)
      exact .inl ⟨by simp [Plain], rfl, rfl⟩
    | cons byte text =>
      rw [List.cons_append, readChars] at read
      split at read
      · obtain ⟨rfl, -⟩ := Prod.mk.inj (Option.some.inj read)
        exact .inr (.inl (by simp))
      · rename_i quote
        split at read
        · cases escape : readEscape (text ++ 34 :: rest) with
          | none => simp [escape] at read
          | some pair =>
            obtain ⟨front, behind⟩ := pair
            rw [escape] at read
            obtain ⟨later, found, same⟩ := Option.map_eq_some_iff.mp read
            obtain ⟨rfl, rfl⟩ := Prod.mk.inj same
            rcases readEscape_quoted escape with ⟨-, rfl⟩ | ⟨used, tail, rfl, rfl, short⟩
            · exact .inr (.inr ⟨later.1, fuel, found⟩)
            · have size : (front ++ later.1).length < (byte :: (used ++ tail)).length ∨
                  ∃ later' fuel', readChars fuel' rest = some (later', later.2) := by
                simp only [List.length_append, List.length_cons]
                rcases ih found with ⟨-, same, -⟩ | shorter | beyond
                · rw [same]
                  exact .inl (by omega)
                · exact .inl (by omega)
                · exact .inr beyond
              exact .inr size
        · rename_i back
          split at read
          · contradiction
          · rename_i printable
            obtain ⟨later, found, same⟩ := Option.map_eq_some_iff.mp read
            obtain ⟨rfl, rfl⟩ := Prod.mk.inj same
            rcases ih found with ⟨plain, same, behind⟩ | shorter | beyond
            · refine .inl ⟨?_, by rw [same], behind⟩
              intro other member
              rcases List.mem_cons.mp member with rfl | inside
              · exact ⟨quote, back, UInt8.not_lt.mp printable⟩
              · exact plain other inside
            · exact .inr (.inl (Nat.succ_lt_succ shorter))
            · exact .inr (.inr beyond)

/-- A string token of a plain text. -/
def quoted (text : Bytes) : Bytes := 34 :: (text ++ [34])

/-- A concatenation is plain when its parts are. -/
theorem plain_append {left right : Bytes} : Plain (left ++ right) ↔ Plain left ∧ Plain right := by
  simp only [Plain, List.mem_append]
  exact ⟨fun all => ⟨fun byte member => all byte (.inl member),
    fun byte member => all byte (.inr member)⟩, fun both byte member => member.elim (both.1 byte)
      (both.2 byte)⟩

/-- A printed integer is plain. -/
theorem plain_decimal (value : Int) : Plain (decimal value) := by
  intro byte member
  rcases mem_decimal member with rfl | digit
  · decide
  · simp only [isDigit, Bool.and_eq_true, decide_eq_true_eq, UInt8.le_iff_toNat_le, ne_eq,
      ← UInt8.toNat_inj] at digit ⊢
    simp only [UInt8.reduceToNat] at digit ⊢
    omega

/-- A text read to its closing quote holds no control bytes. -/
theorem printable_of_readString {text decoded : Bytes}
    (read : readString text = some (decoded, [])) : Printable text := by
  obtain ⟨used, whole, printable, -⟩ := readChars_used read
  rw [whole, List.append_nil]
  exact printable

/-- A text read to its closing quote is read in front of any continuation. -/
theorem readString_append {text decoded : Bytes} (read : readString text = some (decoded, []))
    (rest : Bytes) : readString (text ++ rest) = some (decoded, rest) := by
  obtain ⟨used, whole, -, again⟩ := readChars_used read
  rw [List.append_nil] at whole
  subst whole
  have more := again rest rest.length
  rwa [Nat.add_right_comm, ← List.length_append] at more

/-- A text read to its closing quote makes a string token. -/
theorem reads_string {text decoded : Bytes} (read : readString text = some (decoded, [])) :
    Reads (34 :: text) (.string decoded) := by
  intro fuel rest enough _
  obtain ⟨fuel, rfl⟩ := Nat.exists_eq_add_one.mpr (Nat.zero_lt_of_lt enough)
  have longer := readString_append read rest
  have start : skipBlank (34 :: (text ++ rest)) = 34 :: (text ++ rest) := by
    simp [skipBlank, isBlank]
  rw [List.cons_append, readValue, start]
  simp [longer]

/-- A plain text in quotes is a string token. -/
theorem reads_quoted {text : Bytes} (plain : Plain text) : Reads (quoted text) (.string text) := by
  apply reads_string
  exact readChars_plain plain (by rw [List.length_append]; omega) []

/-! ## Numbers and words -/

/-- The digits of a positive number do not start with a zero. -/
private theorem head_digits {value : Nat} (positive : 0 < value) :
    (digits value).head? ≠ some 48 := by
  induction value using Nat.strongRecOn with
  | ind value ih =>
    by_cases small : value < 10
    · have single : ∀ digit < 10, 0 < digit → (digits digit).head? ≠ some 48 := by decide
      exact single value small positive
    · have shorter : digits value = digits (value / 10) ++ digits (value % 10) := by
        rw [digits, Nat.toDigits_of_base_le (by decide) (Nat.not_lt.mp small), List.map_append]
        congr 1
        rw [digits, Nat.toDigits_of_lt_base (Nat.mod_lt _ (by decide))]
      have first := ih (value / 10) (by omega) (by omega)
      rw [shorter, List.head?_append]
      cases head : (digits (value / 10)).head? with
      | none => exact absurd (List.head?_eq_none_iff.mp head) (digits_ne_nil _)
      | some byte => simpa [head] using first

/-- A continuation does not go on with a number. -/
private theorem stops_number {rest : Bytes} (stops : Stops rest) :
    (∀ byte ∈ rest.head?, isDigit byte = false) ∧ readFraction rest = some ([], rest) ∧
      readExponent rest = some ([], rest) := by
  cases rest with
  | nil => simp [readFraction, readExponent]
  | cons byte rest =>
    rcases stops byte rfl with rfl | rfl | rfl <;>
      simp [readFraction, readExponent, isDigit]

/-- The digits of a natural are an integer part. -/
private theorem readInteger_digits (value : Nat) {rest : Bytes}
    (stops : ∀ byte ∈ rest.head?, isDigit byte = false) :
    readInteger (digits value ++ rest) = some (digits value, rest) := by
  obtain ⟨taken, dropped⟩ := digits_takeWhile value stops
  unfold readInteger
  rw [taken]
  rcases Nat.eq_zero_or_pos value with rfl | positive
  · have zero : digits 0 = [48] := by decide
    simp [zero]
  · have first := head_digits positive
    cases run : digits value with
    | nil => exact absurd run (digits_ne_nil value)
    | cons byte tail =>
      have large : byte ≠ 48 := by simpa [run] using first
      rw [run] at dropped
      rw [dropped]
      simp [large]

/-- A sign or a digit starts no other token. -/
private theorem number_start {c : UInt8} (first : c = 45 ∨ isDigit c = true) :
    isBlank c = false ∧ c ≠ 34 ∧ c ≠ 123 ∧ c ≠ 91 := by
  simp only [isDigit, isBlank, Bool.and_eq_true, decide_eq_true_eq, UInt8.le_iff_toNat_le,
    Bool.or_eq_false_iff, beq_eq_false_iff_ne, ne_eq, ← UInt8.toNat_inj] at first ⊢
  simp only [UInt8.reduceToNat] at first ⊢
  omega

/-- A printed integer is a number token. -/
theorem reads_decimal (value : Int) : Reads (decimal value) (.number (decimal value)) := by
  intro fuel rest enough stops
  obtain ⟨fuel, rfl⟩ := Nat.exists_eq_add_one.mpr (Nat.zero_lt_of_lt enough)
  obtain ⟨ends, fraction, exponent⟩ := stops_number stops
  have whole := readInteger_digits value.natAbs ends
  obtain ⟨head, tail, same, digit⟩ := digits_head value.natAbs rest
  obtain ⟨minus, -⟩ := ne_sign_of_isDigit digit
  have number : readNumber (decimal value ++ rest) = some (decimal value, rest) := by
    by_cases negative : value < 0
    · simp [readNumber, decimal, negative, whole, fraction, exponent]
    · have unsigned : (digits value.natAbs ++ rest).head? ≠ some 45 := by
        rw [same]
        simpa using minus
      rw [decimal, if_neg negative]
      simp only [readNumber, if_neg unsigned, List.length_nil, List.drop_zero, whole, fraction,
        exponent, List.nil_append, List.append_nil]
  have start : ∃ c text, decimal value ++ rest = c :: text ∧ (c = 45 ∨ isDigit c = true) := by
    by_cases negative : value < 0
    · exact ⟨45, digits value.natAbs ++ rest, by rw [decimal, if_pos negative]; rfl, .inl rfl⟩
    · exact ⟨head, tail, by rw [decimal, if_neg negative, same], .inr digit⟩
  obtain ⟨c, text, split, first⟩ := start
  rw [split] at number ⊢
  obtain ⟨blank, quote, brace, bracket⟩ := number_start first
  have here : skipBlank (c :: text) = c :: text := by simp [skipBlank, blank]
  have numeric : (c = 45 || isDigit c) = true := by simpa using first
  rw [readValue, here]
  dsimp only
  rw [if_neg quote, if_neg brace, if_neg bracket, if_pos numeric, number]
  rfl

/-- The token of a truth value. -/
def boolToken (value : Bool) : Bytes := if value then ascii "true" else ascii "false"

/-- The words of the truth values are tokens. -/
theorem reads_bool (value : Bool) : Reads (boolToken value) (.bool value) := by
  intro fuel rest enough _
  obtain ⟨fuel, rfl⟩ := Nat.exists_eq_add_one.mpr (Nat.zero_lt_of_lt enough)
  cases value <;> rfl

/-! ## Arrays and objects -/

/-- Tokens with commas between them. -/
def itemsText : List Bytes → Bytes
  | [] => []
  | [token] => token
  | token :: later => token ++ 44 :: itemsText later

/-- The bytes between commas are those of the tokens. -/
theorem mem_itemsText {tokens : List Bytes} {byte : UInt8} (member : byte ∈ itemsText tokens) :
    byte = 44 ∨ ∃ token ∈ tokens, byte ∈ token := by
  fun_induction itemsText tokens with
  | case1 => contradiction
  | case2 token => exact .inr ⟨token, List.mem_cons_self, member⟩
  | case3 token later _ ih =>
    rcases List.mem_append.mp member with inside | behind
    · exact .inr ⟨token, List.mem_cons_self, inside⟩
    · rcases List.mem_cons.mp behind with comma | deeper
      · exact .inl comma
      · rcases ih deeper with comma | ⟨other, found, inside⟩
        · exact .inl comma
        · exact .inr ⟨other, List.mem_cons_of_mem _ found, inside⟩

/-- Tokens with commas between them are the items of an array. -/
theorem readItems_text {tokens : List (Bytes × Json)} (nonempty : tokens ≠ [])
    (each : ∀ token ∈ tokens, Reads token.1 token.2) (fuel : Nat) (rest : Bytes)
    (enough : (itemsText (tokens.map Prod.fst)).length < fuel) :
    readItems (fuel + 1) (itemsText (tokens.map Prod.fst) ++ 93 :: rest) =
      some (tokens.map Prod.snd, rest) := by
  induction tokens generalizing fuel with
  | nil => contradiction
  | cons token later ih =>
    have first := each token List.mem_cons_self
    cases later with
    | nil =>
      have value := first fuel (93 :: rest) enough (by simp [Stops])
      simp only [List.map_cons, List.map_nil, itemsText, readItems, value]
      simp [skipBlank, isBlank]
    | cons next later =>
      simp only [List.map_cons, itemsText, List.length_append, List.length_cons] at enough ⊢
      obtain ⟨fuel, rfl⟩ := Nat.exists_eq_add_one.mpr (show 0 < fuel by omega)
      have value := first (fuel + 1)
        (44 :: (itemsText (next.1 :: later.map Prod.fst) ++ 93 :: rest)) (by omega)
        (by simp [Stops])
      have items := ih (by simp) (fun other member => each other (List.mem_cons_of_mem _ member))
        fuel (by simpa using (by omega))
      rw [List.append_assoc, List.cons_append, readItems, value]
      simpa [skipBlank, isBlank] using items

/-- Bracketed items are an array token, unless there are none. -/
theorem reads_array {tokens : List (Bytes × Json)} (nonempty : tokens ≠ [])
    (each : ∀ token ∈ tokens, Reads token.1 token.2)
    (opens : ∀ token ∈ tokens, token.1.head? = some 34) :
    Reads (91 :: (itemsText (tokens.map Prod.fst) ++ [93])) (.array (tokens.map Prod.snd)) := by
  intro fuel rest enough _
  simp only [List.length_cons, List.length_append, List.length_nil] at enough
  obtain ⟨fuel, rfl⟩ := Nat.exists_eq_add_one.mpr (show 0 < fuel by omega)
  obtain ⟨fuel, rfl⟩ := Nat.exists_eq_add_one.mpr (show 0 < fuel by omega)
  have items := readItems_text nonempty each fuel rest (by omega)
  have inside : ∃ text, itemsText (tokens.map Prod.fst) ++ 93 :: rest = 34 :: text := by
    match tokens with
    | [] => contradiction
    | [token] | token :: next :: later =>
      have first := opens token List.mem_cons_self
      obtain ⟨text, same⟩ := List.head?_eq_some_iff.mp first
      simp [itemsText, same]
  obtain ⟨text, same⟩ := inside
  have here : skipBlank (91 :: 34 :: text) = 91 :: 34 :: text := by simp [skipBlank, isBlank]
  have next : skipBlank (34 :: text) = 34 :: text := by simp [skipBlank, isBlank]
  rw [List.cons_append, List.append_assoc, List.singleton_append, same, readValue, here]
  rw [same] at items
  simp [next, items]

/-- A member of an object, given by the tokens of its key and its value. -/
structure Entry where
  /-- The text of the key behind its opening quote. -/
  spelling : Bytes
  /-- The key. -/
  key : Bytes
  /-- The text of the value. -/
  token : Bytes
  /-- The value. -/
  value : Json
  /-- The text spells the key. -/
  spells : readString spelling = some (key, [])
  /-- The token is the token of the value. -/
  reads : Reads token value

namespace Entry

/-- The text of a member. -/
def text (entry : Entry) : Bytes := 34 :: (entry.spelling ++ 58 :: entry.token)

/-- The member as the reader returns it. -/
def member (entry : Entry) : Bytes × Json := (entry.key, entry.value)

/-- Members with a comma behind each. -/
def front (entries : List Entry) : Bytes := entries.flatMap fun entry => entry.text ++ [44]

/-- A member in front of others. -/
theorem front_cons (entry : Entry) (entries : List Entry) (rest : Bytes) :
    front (entry :: entries) ++ rest = entry.text ++ 44 :: (front entries ++ rest) := by
  simp [front]

/-- Texts of members with commas between them end in the text of the last one. -/
theorem itemsText_append (entries : List Entry) (last : Entry) :
    itemsText ((entries ++ [last]).map text) = front entries ++ last.text := by
  induction entries with
  | nil => rfl
  | cons entry entries ih =>
    obtain ⟨next, later, shape⟩ := List.exists_cons_of_ne_nil
      (show (entries ++ [last]).map text ≠ [] by simp)
    rw [front_cons, ← ih, List.cons_append, List.map_cons, shape]
    rfl

end Entry

/-- A member is read up to its value, and the reader goes on behind it. -/
private theorem readMembers_start (entry : Entry) {fuel : Nat} {rest : Bytes} {byte : UInt8}
    (stop : byte = 44 ∨ byte = 125) (enough : entry.token.length < fuel) :
    readMembers (fuel + 1) (entry.text ++ byte :: rest) =
      if byte = 125 then some ([entry.member], rest)
      else (readMembers fuel rest).map fun later => (entry.member :: later.1, later.2) := by
  have stops : Stops (byte :: rest) := by
    rcases stop with rfl | rfl <;> simp [Stops]
  have value := entry.reads fuel (byte :: rest) enough stops
  have name := readString_append entry.spells (58 :: (entry.token ++ byte :: rest))
  have quote (tail : Bytes) : skipBlank (34 :: tail) = 34 :: tail := by simp [skipBlank, isBlank]
  have colon (tail : Bytes) : skipBlank (58 :: tail) = 58 :: tail := by simp [skipBlank, isBlank]
  have next : skipBlank (byte :: rest) = byte :: rest := by
    rcases stop with rfl | rfl <;> simp [skipBlank, isBlank]
  rw [Entry.text, List.cons_append, List.append_assoc, List.cons_append, readMembers, quote]
  rcases stop with rfl | rfl <;> simp [name, colon, value, next, Entry.member]

/-- Members with commas behind them are read one after the other. -/
theorem readMembers_front (entries : List Entry) {fuel : Nat} (rest : Bytes)
    (enough : ∀ entry ∈ entries, entry.token.length < fuel) :
    readMembers (entries.length + fuel) (Entry.front entries ++ rest) =
      (readMembers fuel rest).map fun later =>
        (entries.map Entry.member ++ later.1, later.2) := by
  induction entries with
  | nil => simp [Entry.front]
  | cons entry entries ih =>
    have later := ih fun other member => enough other (List.mem_cons_of_mem _ member)
    have room := enough entry List.mem_cons_self
    have first : readMembers _ (entry.text ++ 44 :: (Entry.front entries ++ rest)) = _ :=
      readMembers_start entry (.inl rfl)
        (Nat.lt_of_lt_of_le room (Nat.le_add_left fuel entries.length))
    rw [Entry.front_cons, List.length_cons, Nat.add_right_comm, first, if_neg (by decide), later,
      Option.map_map]
    rfl

/-- The members in front are no longer than their text. -/
private theorem length_front (entries : List Entry) :
    entries.length ≤ (Entry.front entries).length ∧
      ∀ entry ∈ entries, entries.length + entry.token.length < (Entry.front entries).length := by
  induction entries with
  | nil => simp
  | cons first entries ih =>
    obtain ⟨short, each⟩ := ih
    have split : (Entry.front (first :: entries)).length =
        first.spelling.length + first.token.length + 3 + (Entry.front entries).length := by
      simp only [Entry.front, List.flatMap_cons, Entry.text, List.length_append,
        List.length_cons, List.length_nil]
      omega
    rw [List.length_cons, split]
    refine ⟨by omega, ?_⟩
    intro entry member
    rcases List.mem_cons.mp member with rfl | later
    · omega
    · have room := each entry later
      omega

/-- A text of members is read member by member up to the closing brace. -/
theorem readMembers_entries (entries : List Entry) (last : Entry) (rest : Bytes) {fuel : Nat}
    (enough : (Entry.front entries ++ (last.text ++ 125 :: rest)).length ≤ fuel) :
    readMembers fuel (Entry.front entries ++ (last.text ++ 125 :: rest)) =
      some (entries.map Entry.member ++ [last.member], rest) := by
  obtain ⟨short, each⟩ := length_front entries
  simp only [List.length_append, List.length_cons, Entry.text] at enough
  obtain ⟨spare, rfl⟩ := Nat.exists_eq_add_of_le (show entries.length + 1 ≤ fuel by omega)
  have ends : readMembers _ (last.text ++ 125 :: rest) = _ :=
    readMembers_start last (.inr rfl) (show last.token.length < spare by omega)
  rw [if_pos rfl] at ends
  rw [Nat.add_assoc, Nat.add_comm 1, readMembers_front, ends]
  · rfl
  · intro entry member
    have room := each entry member
    omega

/-- Whatever follows the members in front is read on its own. -/
theorem readMembers_behindEntries (entries : List Entry) {rest left : Bytes} {fuel : Nat}
    {members : List (Bytes × Json)} (enough : (Entry.front entries ++ rest).length ≤ fuel)
    (read : readMembers fuel (Entry.front entries ++ rest) = some (members, left)) :
    ∃ fuel later, readMembers fuel rest = some (later, left) ∧
      members = entries.map Entry.member ++ later := by
  obtain ⟨short, each⟩ := length_front entries
  rw [List.length_append] at enough
  obtain ⟨spare, rfl⟩ := Nat.exists_eq_add_of_le (show entries.length ≤ fuel by omega)
  rw [readMembers_front] at read
  · obtain ⟨later, found, same⟩ := Option.map_eq_some_iff.mp read
    obtain ⟨rfl, rfl⟩ := Prod.mk.inj same
    exact ⟨spare, later.1, found, rfl⟩
  · intro entry member
    have room := each entry member
    omega

/-! ## Members with plain keys -/

/-- A member of an object whose key is plain and whose value is given by its token. -/
structure Field where
  /-- The key. -/
  key : Bytes
  /-- The text of the value. -/
  token : Bytes
  /-- The value. -/
  value : Json
  /-- The key needs no escapes. -/
  plain : Plain key
  /-- The token is the token of the value. -/
  reads : Reads token value

/-- A plain key is read up to the quote behind it. -/
private theorem readString_key {key : Bytes} (plain : Plain key) (rest : Bytes) :
    readString (key ++ 34 :: rest) = some (key, rest) :=
  readChars_plain plain (by rw [List.length_append]; omega) rest

namespace Field

/-- The text of a member. -/
def text (field : Field) : Bytes := quoted field.key ++ 58 :: field.token

/-- The member as the reader returns it. -/
def member (field : Field) : Bytes × Json := (field.key, field.value)

/-- Members with a comma behind each. -/
def front (fields : List Field) : Bytes := fields.flatMap fun field => field.text ++ [44]

/-- The member with its key spelled out. -/
def entry (field : Field) : Entry :=
  ⟨field.key ++ [34], field.key, field.token, field.value, readString_key field.plain [],
    field.reads⟩

/-- A member has the text of its entry. -/
theorem text_eq (field : Field) : field.text = field.entry.text := rfl

/-- Members have the text of their entries. -/
theorem front_eq (fields : List Field) : front fields = Entry.front (fields.map entry) := by
  simp [front, Entry.front, List.flatMap_map, text_eq]

/-- Members are those of their entries. -/
theorem map_member (fields : List Field) :
    fields.map member = (fields.map entry).map Entry.member := by
  rw [List.map_map]
  rfl

end Field

/-- Whatever follows the members in front is read on its own. -/
theorem readMembers_behind (fields : List Field) {rest left : Bytes} {fuel : Nat}
    {members : List (Bytes × Json)} (enough : (Field.front fields ++ rest).length ≤ fuel)
    (read : readMembers fuel (Field.front fields ++ rest) = some (members, left)) :
    ∃ fuel later, readMembers fuel rest = some (later, left) ∧
      members = fields.map Field.member ++ later := by
  rw [Field.front_eq] at enough read
  rw [Field.map_member]
  exact readMembers_behindEntries (fields.map Field.entry) enough read

/-- Before a key there is nothing to skip. -/
private theorem skipBlank_quoted (key rest : Bytes) :
    skipBlank (quoted key ++ rest) = 34 :: (key ++ 34 :: rest) := by
  simp [quoted, skipBlank, isBlank]

/-- A quoted text in the place of a value, in front of another member. The reader takes the text
as it stands only when it is plain; otherwise it fails or finds a shorter string. -/
theorem readMembers_quoted {key text rest left : Bytes} {members : List (Bytes × Json)}
    {fuel : Nat} {letter : UInt8} (plainKey : Plain key)
    (apart : isBlank letter = false ∧ letter ≠ 44 ∧ letter ≠ 125)
    (read : readMembers fuel (quoted key ++ 58 :: (quoted text ++ 44 :: 34 :: letter :: rest)) =
      some (members, left)) :
    Plain text ∨
      ∃ decoded later,
        decoded.length < text.length ∧ members = (key, .string decoded) :: later := by
  have colon (tail : Bytes) : skipBlank (58 :: tail) = 58 :: tail := by simp [skipBlank, isBlank]
  match fuel with
  | 0 => contradiction
  | 1 => simp [readMembers, skipBlank_quoted, readString_key plainKey, colon, readValue] at read
  | fuel + 2 =>
    simp only [readMembers, skipBlank_quoted, readString_key plainKey, colon, readValue, ne_eq,
      not_true_eq_false, ↓reduceIte] at read
    cases found : readString (text ++ 34 :: 44 :: 34 :: letter :: rest) with
    | none => simp [found] at read
    | some pair =>
      obtain ⟨decoded, behind⟩ := pair
      simp only [found, Option.map_some] at read
      rcases readChars_quoted found with ⟨plain, -⟩ | shorter | ⟨later, more, beyond⟩
      · exact .inl plain
      · cases after : skipBlank behind with
        | nil => simp [after] at read
        | cons c tail =>
          simp only [after] at read
          split at read
          · obtain ⟨rfl, -⟩ := Prod.mk.inj (Option.some.inj read)
            exact .inr ⟨decoded, [], shorter, rfl⟩
          · split at read
            · obtain ⟨others, -, same⟩ := Option.map_eq_some_iff.mp read
              obtain ⟨rfl, -⟩ := Prod.mk.inj same
              exact .inr ⟨decoded, others.1, shorter, rfl⟩
            · contradiction
      · have goesOn : behind = letter :: rest := by
          match more with
          | 0 | 1 => simp [readChars] at beyond
          | more + 2 =>
            simp only [readChars] at beyond
            simpa using (congrArg Prod.snd (Option.some.inj beyond)).symm
        obtain ⟨blank, comma, brace⟩ := apart
        have here : skipBlank (letter :: rest) = letter :: rest := by simp [skipBlank, blank]
        simp [goesOn, here, comma, brace] at read

end StreamPipeline.Json
