import StreamPipeline.Codec.Jsonl
import StreamPipeline.Lib.JsonTokens

/-!
# The parser as a reader of JSON

`CJson.Exact` says what the getters rely on: the parser takes exactly one JSON value off the
line, `strtod` is exact on the integers a double holds, and a printed string is a string token.
From this a line of known members answers the getters, and a getter that returns a text it was
given in quotes shows that the text needed no escapes.
-/

namespace StreamPipeline.Codec

open Json (Plain Reads quoted Entry Field)

mutual

/-- The item of a value. -/
def itemOf (strtod : Bytes → Double) : Json → Item
  | .null => .null
  | .bool value => .bool value
  | .number spelling => .number (strtod spelling)
  | .string text => .string (.ofBytes text)
  | .array items => .array (itemsOf strtod items)
  | .object members => .object (membersOf strtod members)

/-- The items of an array. -/
def itemsOf (strtod : Bytes → Double) : List Json → List Item
  | [] => []
  | value :: values => itemOf strtod value :: itemsOf strtod values

/-- The members of an object. -/
def membersOf (strtod : Bytes → Double) : List (Bytes × Json) → List (CStr × Item)
  | [] => []
  | (key, value) :: members =>
    (CStr.ofBytes key, itemOf strtod value) :: membersOf strtod members

end

/-- The library parses exactly JSON, reads the integers of a double exactly and prints strings
as string tokens. -/
structure CJson.Exact (cjson : CJson) (strtod : Bytes → Double) : Prop where
  parses : ∀ line : CStr, cjson.parseWithOpts line =
    (Json.read line.bytes).map fun read => (itemOf strtod read.1, read.2)
  integers : ∀ value : Int, value.natAbs ≤ 9007199254740991 →
    strtod (decimal value) = .finite value
  prints : ∀ text, ∃ inside decoded, (cjson.printString text).bytes = 34 :: inside ∧
    Json.readString inside = some (decoded, [])

/-- A printed string reads back as the string. -/
structure CJson.Faithful (cjson : CJson) (strtod : Bytes → Double) : Prop
    extends cjson.Exact strtod where
  printsBack : ∀ text, ∃ inside, (cjson.printString text).bytes = 34 :: inside ∧
    Json.readString inside = some (text.bytes, [])

/-- An object on a line is read member by member. -/
theorem read_object {text : Bytes} (opens : text.head? = some 34) :
    Json.read (123 :: text) = (Json.readMembers (text.length + 1) text).map fun read =>
      (.object read.1, read.2) := by
  obtain ⟨inside, rfl⟩ := List.head?_eq_some_iff.mp opens
  have here : Json.skipBlank (123 :: 34 :: inside) = 123 :: 34 :: inside := by
    simp [Json.skipBlank, Json.isBlank]
  have next : Json.skipBlank (34 :: inside) = 34 :: inside := by
    simp [Json.skipBlank, Json.isBlank]
  rw [Json.read, List.length_cons, List.length_cons, Json.readValue, here]
  simp [next]

/-- A text of members opens with a quote. -/
private theorem head_front (fields : List Field) (key rest : Bytes) :
    (Field.front fields ++ (quoted key ++ rest)).head? = some 34 := by
  cases fields with
  | nil => simp [Field.front, quoted]
  | cons field fields => simp [Field.front, Field.text, quoted]

/-- The names of the members of a line. -/
def names (fields : List Field) : List CStr := fields.map fun field => CStr.ofBytes field.key

/-- Members of other names are skipped. -/
theorem find_names (strtod : Bytes → Double) {key : CStr} (fields : List Field)
    (fresh : key ∉ names fields) (later : List (Bytes × Json)) :
    (membersOf strtod (fields.map Field.member ++ later)).find?
        (fun member => decide (member.1 = key)) =
      (membersOf strtod later).find? fun member => decide (member.1 = key) := by
  induction fields with
  | nil => rfl
  | cons field fields ih =>
    rw [names, List.map_cons, List.mem_cons, not_or] at fresh
    obtain ⟨other, rest⟩ := fresh
    have found := ih rest
    simpa [membersOf, Field.member, Ne.symm other] using found

/-- The first member of a name is found. -/
theorem find_member (strtod : Bytes → Double) (fields : List Field) (field : Field)
    (fresh : CStr.ofBytes field.key ∉ names fields) (later : List (Bytes × Json)) :
    ((membersOf strtod (fields.map Field.member ++ field.member :: later)).find?
        fun member => decide (member.1 = CStr.ofBytes field.key)).map Prod.snd =
      some (itemOf strtod field.value) := by
  rw [find_names strtod fields fresh]
  simp [membersOf, Field.member]

/-- The value of the first member of a name. -/
def firstMember (members : List (Bytes × Json)) (key : CStr) : Option Json :=
  (members.find? fun member => CStr.ofBytes member.1 = key).map Prod.snd

/-- Among the items of an object it is found by the same name. -/
theorem find_membersOf (strtod : Bytes → Double) (members : List (Bytes × Json)) (key : CStr) :
    ((membersOf strtod members).find? fun member => decide (member.1 = key)).map Prod.snd =
      (firstMember members key).map (itemOf strtod) := by
  induction members with
  | nil => rfl
  | cons member members ih =>
    obtain ⟨name, value⟩ := member
    rw [membersOf, firstMember]
    by_cases here : CStr.ofBytes name = key
    · simp [here]
    · rw [List.find?_cons_of_neg (by simpa using here), List.find?_cons_of_neg (by simpa using here)]
      exact ih

/-- The cast of an integer to a double's value is read back whole. -/
private theorem tdiv_intCast (value : Int) :
    (value : Rat).num.tdiv (value : Rat).den = value := by
  simp

/-- The getters' bounds leave out the integers beyond the exact range. -/
theorem outside_safe_iff (value : Int) :
    ((value : Rat) < -jsonlMaxSafeInteger ∨ jsonlMaxSafeInteger < (value : Rat)) ↔
      9007199254740991 < value.natAbs := by
  have bound : jsonlMaxSafeInteger = ((9007199254740991 : Int) : Rat) := by rfl
  rw [bound, ← Rat.intCast_neg, Rat.intCast_lt_intCast, Rat.intCast_lt_intCast]
  omega

/-- An integer in the exact range is inside the getters' bounds. -/
private theorem within_safe {value : Int} (small : value.natAbs ≤ 9007199254740991) :
    ¬((value : Rat) < -jsonlMaxSafeInteger ∨ jsonlMaxSafeInteger < (value : Rat)) := by
  rw [outside_safe_iff]
  exact Nat.not_lt.mpr small

/-- An integer in the exact range is read back. -/
theorem jsonlGetInt64_number {cjson : CJson} {line key : CStr} {value : Int}
    (small : value.natAbs ≤ 9007199254740991)
    (item : getItem cjson line key = some (.number (.finite value))) :
    jsonlGetInt64 cjson line key = some (.ofInt value) := by
  rw [jsonlGetInt64, item]
  simp only [if_neg (within_safe small), tdiv_intCast, ne_eq, not_true_eq_false, ↓reduceIte]

/-- The integer getter returns exactly the integral doubles in the exact range. -/
theorem jsonlGetInt64_eq_some_iff {cjson : CJson} {line key : CStr} {word : Int64} :
    jsonlGetInt64 cjson line key = some word ↔ ∃ value : Int,
      getItem cjson line key = some (.number (.finite value)) ∧
        value.natAbs ≤ 9007199254740991 ∧ word = .ofInt value := by
  constructor
  · intro got
    unfold jsonlGetInt64 at got
    split at got
    · rename_i double item
      by_cases outside : double < -jsonlMaxSafeInteger ∨ jsonlMaxSafeInteger < double
      · rw [if_pos outside] at got
        contradiction
      · rw [if_neg outside] at got
        by_cases fraction : (double.num.tdiv double.den : Rat) ≠ double
        · simp only [if_pos fraction] at got
          contradiction
        · simp only [if_neg fraction, Option.some.injEq] at got
          have whole := Decidable.not_not.mp fraction
          rw [← whole, outside_safe_iff] at outside
          rw [← whole] at item
          exact ⟨_, item, Nat.not_lt.mp outside, got.symm⟩
    · contradiction
  · rintro ⟨value, item, small, rfl⟩
    exact jsonlGetInt64_number small item

section Getters

variable {cjson : CJson} {strtod : Bytes → Double} (exact : cjson.Exact strtod)

include exact

/-- A line of members with white space behind the closing brace is one object. -/
theorem parseObject_entries {line : CStr} (entries : List Entry) (last : Entry) {blank : Bytes}
    (shape : line.bytes = 123 :: (Entry.front entries ++ (last.text ++ 125 :: blank)))
    (white : blank.dropWhile isSpace = []) :
    parseObject cjson line =
      some (membersOf strtod (entries.map Entry.member ++ [last.member])) := by
  have opens : (Entry.front entries ++ (last.text ++ 125 :: blank)).head? = some 34 := by
    cases entries with
    | nil => rfl
    | cons entry entries => rw [Entry.front_cons]; rfl
  have read := Json.readMembers_entries entries last blank (Nat.le_succ _)
  rw [parseObject, exact.parses, shape, read_object opens, read]
  simp [itemOf, white]

/-- On a line that reads as one object the item of a name is that of its first member. -/
theorem getItem_of_read {line key : CStr} {members : List (Bytes × Json)} {rest : Bytes}
    (read : Json.read line.bytes = some (.object members, rest))
    (white : rest.dropWhile isSpace = []) :
    getItem cjson line key = (firstMember members key).map (itemOf strtod) := by
  rw [getItem, parseObject, exact.parses, read]
  simp [itemOf, white, find_membersOf]

/-- The same for members with plain keys. -/
theorem parseObject_fields {line : CStr} (fields : List Field) (last : Field) {blank : Bytes}
    (shape : line.bytes = 123 :: (Field.front fields ++ (last.text ++ 125 :: blank)))
    (white : blank.dropWhile isSpace = []) :
    parseObject cjson line =
      some (membersOf strtod (fields.map Field.member ++ [last.member])) := by
  rw [Field.front_eq] at shape
  rw [Field.map_member]
  exact parseObject_entries exact (fields.map Field.entry) last.entry shape white

/-- An item found on a line is found in the members behind those of other names. -/
theorem getItem_behind {line key : CStr} (fields : List Field) {rest : Bytes} {item : Item}
    (opens : (Field.front fields ++ rest).head? = some 34)
    (shape : line.bytes = 123 :: (Field.front fields ++ rest))
    (fresh : key ∉ names fields)
    (got : getItem cjson line key = some item) :
    ∃ fuel members left, Json.readMembers fuel rest = some (members, left) ∧
      ((membersOf strtod members).find? fun member => member.1 = key).map Prod.snd =
        some item := by
  unfold getItem parseObject at got
  rw [exact.parses, shape, read_object opens] at got
  generalize size : (Field.front fields ++ rest).length + 1 = fuel at got
  cases read : Json.readMembers fuel (Field.front fields ++ rest) with
  | none => simp [read] at got
  | some pair =>
    obtain ⟨members, left⟩ := pair
    obtain ⟨fuel, later, found, rfl⟩ :=
      Json.readMembers_behind fields (size ▸ Nat.le_succ _) read
    refine ⟨fuel, later, left, found, ?_⟩
    simp only [read, Option.map_some, itemOf] at got
    split at got
    · simpa [find_names strtod fields fresh] using got
    · simp at got

/-- A getter that returns a text which stands in quotes on the line shows that it is plain. -/
theorem plain_of_jsonlGetString {line key text : CStr} (fields : List Field) {letter : UInt8}
    {rest : Bytes} (plainKey : Plain key.bytes)
    (apart : Json.isBlank letter = false ∧ letter ≠ 44 ∧ letter ≠ 125)
    (shape : line.bytes = 123 :: (Field.front fields ++
      (quoted key.bytes ++ 58 :: (quoted text.bytes ++ 44 :: 34 :: letter :: rest))))
    (fresh : key ∉ names fields) {outSize : Nat}
    (got : jsonlGetString cjson line key outSize = some text) :
    Plain text.bytes := by
  unfold jsonlGetString at got
  split at got
  · rename_i valuestring item
    obtain ⟨fuel, members, left, found, first⟩ :=
      getItem_behind exact fields (head_front fields _ _) shape fresh item
    have same : valuestring = text := by
      split at got
      · contradiction
      · exact Option.some.inj got
    rcases Json.readMembers_quoted plainKey apart found with plain | ⟨decoded, others, short, rfl⟩
    · exact plain
    · have cut : CStr.ofBytes decoded = text := by
        simpa [membersOf, itemOf, same] using first
      have atMost : (CStr.ofBytes decoded).bytes.length ≤ decoded.length :=
        (List.takeWhile_sublist _).length_le
      rw [cut] at atMost
      omega
  · contradiction

/-- A printed word in the exact range is read back. -/
theorem jsonlGetInt64_decimal {line key : CStr} {value : Int64}
    (small : value.toInt.natAbs ≤ 9007199254740991)
    (item : getItem cjson line key = some (itemOf strtod (.number (decimal value.toInt)))) :
    jsonlGetInt64 cjson line key = some value := by
  rw [itemOf, exact.integers _ small] at item
  rw [jsonlGetInt64_number small item, Int64.ofInt_toInt]

/-- A printed unsigned word in the exact range is read back. -/
theorem jsonlGetUInt64_decimal {line key : CStr} {value : UInt64}
    (small : value.toNat ≤ 9007199254740991)
    (item : getItem cjson line key = some (itemOf strtod (.number (decimal value.toNat)))) :
    jsonlGetUInt64 cjson line key = some value := by
  have bound : (value.toNat : Int).natAbs ≤ 9007199254740991 := small
  have outside := within_safe bound
  have positive : ¬((value.toNat : Int) : Rat) < 0 := by
    rw [Rat.not_lt]
    exact_mod_cast Int.natCast_nonneg value.toNat
  rw [jsonlGetUInt64, item, itemOf, exact.integers _ bound]
  simp only [if_neg (not_or.mpr ⟨positive, (not_or.mp outside).2⟩), tdiv_intCast, ne_eq,
    not_true_eq_false, ↓reduceIte, Int.toNat_natCast, UInt64.ofNat_toNat]

end Getters

/-! ## A parser of that kind -/

/-- The double of an integer spelling; other spellings are not needed here. -/
def sampleStrtod (spelling : Bytes) : Double :=
  match strtol spelling with
  | some (value, _) => .finite value.toInt
  | none => .finite 0

/-- The letters after the backslash of a control byte. -/
def controlEscape (byte : UInt8) : Bytes :=
  [117, 48, 48, if byte < 16 then 48 else 49,
    (ascii "0123456789abcdef").getD (byte.toNat % 16) 48]

/-- A byte inside a printed string: quotes, backslashes and control bytes are escaped. -/
def escapeByte (byte : UInt8) : Bytes :=
  if byte = 34 ∨ byte = 92 then [92, byte]
  else if byte < 32 then 92 :: controlEscape byte
  else [byte]

/-- The letters of a control byte are read back, whatever follows them. -/
private theorem readEscape_controlEscape {byte : UInt8} (control : byte < 32) (rest : Bytes) :
    Json.readEscape (controlEscape byte ++ rest) = some ([byte], rest) := by
  have table : ∀ code < 32, Json.readEscape (controlEscape (UInt8.ofNat code)) =
      some ([UInt8.ofNat code], []) := by decide
  have alone := table byte.toNat (UInt8.lt_iff_toNat_lt.mp control)
  rw [UInt8.ofNat_toNat] at alone
  obtain ⟨used, taken⟩ := Json.readEscape_used alone
  have whole : controlEscape byte = used := by simpa using taken.split
  rw [whole]
  exact taken.again rest

/-- A printed byte is read back. -/
private theorem readChars_escapeByte (byte : UInt8) (fuel : Nat) (rest : Bytes) :
    Json.readChars (fuel + 1) (escapeByte byte ++ rest) =
      (Json.readChars fuel rest).map fun later => (byte :: later.1, later.2) := by
  unfold escapeByte
  split
  · rename_i special
    rcases special with rfl | rfl <;> rfl
  · rename_i common
    obtain ⟨quote, back⟩ := not_or.mp common
    split
    · rename_i control
      rw [List.cons_append, Json.readChars, readEscape_controlEscape control]
      rfl
    · rename_i printable
      simp [Json.readChars, quote, back, printable]

/-- A printed string is read back. -/
private theorem readChars_escaped (text : Bytes) {fuel : Nat} (enough : text.length < fuel) :
    Json.readChars fuel (text.flatMap escapeByte ++ [34]) = some (text, []) := by
  induction text generalizing fuel with
  | nil =>
    obtain ⟨fuel, rfl⟩ := Nat.exists_eq_add_one.mpr enough
    rfl
  | cons byte text ih =>
    obtain ⟨fuel, rfl⟩ := Nat.exists_eq_add_one.mpr (Nat.zero_lt_of_lt enough)
    have later := ih (Nat.lt_of_succ_lt_succ enough)
    rw [List.flatMap_cons, List.append_assoc, readChars_escapeByte, later]
    rfl

/-- A printed byte holds no terminator. -/
private theorem zero_notMem_escapeByte {byte : UInt8} (live : byte ≠ 0) :
    0 ∉ escapeByte byte := by
  have table : ∀ code < 16, (ascii "0123456789abcdef").getD code 48 ≠ 0 := by decide
  have letter := table (byte.toNat % 16) (Nat.mod_lt _ (by decide))
  unfold escapeByte
  split
  · simp [live.symm]
  · split
    · have high : (if byte < 16 then (48 : UInt8) else 49) ≠ 0 := by split <;> decide
      simp only [controlEscape, List.mem_cons, List.not_mem_nil, or_false, not_or]
      exact ⟨by decide, by decide, by decide, by decide, high.symm, letter.symm⟩
    · simp [live.symm]

/-- A printed byte takes at least one place. -/
private theorem escapeByte_ne_nil (byte : UInt8) : 1 ≤ (escapeByte byte).length := by
  unfold escapeByte
  split
  · simp
  · split <;> simp

/-- The printed form of a string item. -/
def sampleString (text : CStr) : CStr where
  bytes := 34 :: (text.bytes.flatMap escapeByte ++ [34])
  nulFree := by
    simp only [List.mem_cons, List.mem_append, List.mem_flatMap, List.not_mem_nil, or_false]
    rintro (quote | ⟨byte, member, zero⟩ | quote)
    · contradiction
    · refine zero_notMem_escapeByte ?_ zero
      rintro rfl
      exact text.nulFree member
    · contradiction

/-- A library that parses JSON and prints escaped strings. -/
def sampleJson : CJson where
  parseWithOpts line := (Json.read line.bytes).map fun read => (itemOf sampleStrtod read.1, read.2)
  printString := sampleString

/-- The sample library reads its printed strings back. -/
private theorem readString_sampleString (text : CStr) :
    Json.readString (text.bytes.flatMap escapeByte ++ [34]) = some (text.bytes, []) := by
  apply readChars_escaped
  have longer : text.bytes.length ≤ (text.bytes.flatMap escapeByte).length := by
    rw [List.length_flatMap]
    induction text.bytes with
    | nil => simp
    | cons byte rest ih =>
      have place := escapeByte_ne_nil byte
      simp only [List.map_cons, List.sum_cons, List.length_cons]
      omega
  rw [List.length_append]
  omega

/-- The sample library meets the description. -/
theorem sampleJson_exact : sampleJson.Exact sampleStrtod where
  parses _ := rfl
  integers value small := by
    have word : (Int64.ofInt value).toInt = value :=
      Int64.toInt_ofInt_of_le (by omega) (by omega)
    have whole := strtol_decimal_end (Int64.ofInt value)
    rw [word] at whole
    simp [sampleStrtod, whole, word]
  prints text := ⟨_, text.bytes, rfl, readString_sampleString text⟩

/-- The sample library is faithful. -/
theorem sampleJson_faithful : sampleJson.Faithful sampleStrtod where
  toExact := sampleJson_exact
  printsBack text := ⟨_, rfl, readString_sampleString text⟩

end StreamPipeline.Codec
