import StreamPipeline.Codec.Reader
import StreamPipeline.Parse.Filter

/-!
# The verdict on a line of JSON

`log_filter_match_jsonl` promises `-1` for malformed JSON and a flag for everything else. Three
of its operators go through `jsonl_get_scalar_text`, whose one error code also stands for a
field that is missing, not scalar or too long for the buffer; the fourth compares integers that
a double holds exactly with an operand of one word.
-/

namespace StreamPipeline.Parse

open Codec

/-! ## What is asked -/

/-- The line is a single object with these members, white space allowed behind it. -/
def IsObjectLine (line : CStr) (members : List (Bytes × Json)) : Prop :=
  ∃ rest, Json.read line.bytes = some (.object members, rest) ∧
    ∀ byte ∈ rest, isSpace byte = true

/-- The top-level field of that name, the first one if there are more. -/
def fieldOf (members : List (Bytes × Json)) (key : CStr) : Option Json :=
  (members.find? fun member => CStr.ofBytes member.1 = key).map Prod.snd

/-- The text of a scalar: a string's own, and what the library prints for any other. -/
def scalarText (strtod : Bytes → Double) (printItem : Item → Option CStr) : Json → Option CStr
  | .string text => some (.ofBytes text)
  | .array _ | .object _ => none
  | value => printItem (itemOf strtod value)

/-- The integer of a number, which the library stores as a double. -/
def integerOf (strtod : Bytes → Double) : Json → Option Int
  | .number spelling =>
    match strtod spelling with
    | .finite value => if value.den = 1 then some value.num else none
    | .infinite _ => none
  | _ => none

/-- The relation an operator on text asks for. -/
def FilterOperator.Relates (op : FilterOperator) (text operand : CStr) : Prop :=
  match op with
  | .equals => text = operand
  | .notEquals => text ≠ operand
  | .contains => operand.bytes <:+: text.bytes
  | .greaterThan => False

/-- A field satisfies a filter: integers compare strictly, texts stand in the operator's
relation. -/
def Satisfies (strtod : Bytes → Double) (printItem : Item → Option CStr) (filter : Filter)
    (value : Json) : Prop :=
  if filter.op = .greaterThan then
    ∃ field operand, integerOf strtod value = some field ∧
      spelled filter.value.bytes = some operand ∧ operand < field
  else
    ∃ text, scalarText strtod printItem value = some text ∧ filter.op.Relates text filter.value

/-- The promise for an object: a flag that is set exactly when the named field is there and
satisfies the filter. -/
def Answers (strtod : Bytes → Double) (printItem : Item → Option CStr) (filter : Filter)
    (members : List (Bytes × Json)) (result : Option Bool) : Prop :=
  ∃ flag, result = some flag ∧
    (flag = true ↔ ∃ value, fieldOf members filter.key = some value ∧
      Satisfies strtod printItem filter value)

/-- The promise for a line: `-1` exactly when it is no single object, and for every object an
answer. -/
def Verdict (strtod : Bytes → Double) (printItem : Item → Option CStr) (line : CStr)
    (filter : Filter) (result : Option Bool) : Prop :=
  (result = none ↔ ¬∃ members, IsObjectLine line members) ∧
    ∀ members, IsObjectLine line members → Answers strtod printItem filter members result

/-- What an object needs for the promise to be kept. For an operator on text the field is there,
is a scalar and its text fits the buffer; for `>`, a field that is greater than the operand lies
in the exact range of a double, and the operand is not below the word. -/
def Fits (strtod : Bytes → Double) (printItem : Item → Option CStr) (filter : Filter)
    (members : List (Bytes × Json)) : Prop :=
  if filter.op = .greaterThan then
    ∀ value field operand, fieldOf members filter.key = some value →
      integerOf strtod value = some field → spelled filter.value.bytes = some operand →
      operand < field → field.natAbs ≤ 9007199254740991 ∧ -2 ^ 63 ≤ operand
  else
    ∃ value text, fieldOf members filter.key = some value ∧
      scalarText strtod printItem value = some text ∧ text.bytes.length < 1024

/-! ## What the getters answer -/

/-- The item under a key is that of the field. -/
theorem find_membersOf (strtod : Bytes → Double) (members : List (Bytes × Json)) (key : CStr) :
    ((membersOf strtod members).find? fun member => member.1 = key).map Prod.snd =
      (fieldOf members key).map (itemOf strtod) := by
  induction members with
  | nil => rfl
  | cons member members ih =>
    rw [membersOf, fieldOf]
    by_cases named : CStr.ofBytes member.1 = key
    · simp [named]
    · simpa [named, fieldOf] using ih

/-- The words of two integers compare as the integers do. -/
theorem ofInt_lt_ofInt {left right : Int} (leftLow : -2 ^ 63 ≤ left) (leftHigh : left < 2 ^ 63)
    (rightLow : -2 ^ 63 ≤ right) (rightHigh : right < 2 ^ 63) :
    Int64.ofInt left < Int64.ofInt right ↔ left < right := by
  rw [Int64.lt_iff_toInt_lt, Int64.toInt_ofInt_of_le leftLow leftHigh,
    Int64.toInt_ofInt_of_le rightLow rightHigh]

/-- The operators on text decide their relation. -/
theorem FilterOperator.holds_iff (op : FilterOperator) (text operand : CStr) :
    op.holds text operand = true ↔ op.Relates text operand := by
  cases op with
  | equals => exact decide_eq_true_iff
  | notEquals => exact decide_eq_true_iff
  | contains => exact isSome_strstr text.bytes
  | greaterThan => simp [FilterOperator.holds, FilterOperator.Relates]

/-- A double is an integer exactly when its denominator is one. -/
theorem whole_iff (double : Rat) (value : Int) :
    double = value ↔ (if double.den = 1 then some double.num else none) = some value := by
  by_cases integral : double.den = 1
  · rw [if_pos integral, Option.some.injEq]
    have same := Rat.den_eq_one_iff double |>.mp integral
    constructor
    · rintro rfl
      exact Rat.num_intCast value
    · rintro rfl
      exact same.symm
  · rw [if_neg integral]
    constructor
    · rintro rfl
      exact absurd (Rat.den_intCast value) integral
    · intro none
      contradiction

/-- The item of a number with an integer. -/
theorem itemOf_eq_number_iff (strtod : Bytes → Double) (value : Json) (field : Int) :
    itemOf strtod value = .number (.finite field) ↔ integerOf strtod value = some field := by
  cases value with
  | number spelling =>
    simp only [itemOf, integerOf, Item.number.injEq]
    cases strtod spelling with
    | finite double =>
      rw [Double.finite.injEq]
      exact whole_iff double field
    | infinite negative => simp
  | null | bool | string | array | object => simp [itemOf, integerOf]

section Exact

variable {cjson : CJson} {strtod : Bytes → Double} (exact : cjson.Exact strtod)

include exact

/-- The parser finds the members of an object line. -/
theorem parseObject_of_isObjectLine {line : CStr} {members : List (Bytes × Json)}
    (object : IsObjectLine line members) :
    parseObject cjson line = some (membersOf strtod members) := by
  have ⟨rest, read, white⟩ := object
  have blank : rest.dropWhile isSpace = [] := List.dropWhile_eq_nil_iff.mpr white
  rw [parseObject, exact.parses, read, Option.map_some]
  simp only [itemOf]
  rw [if_pos blank]

/-- The parser finds members on no other line. -/
theorem isObjectLine_of_parseObject {line : CStr} {items : List (CStr × Item)}
    (parsed : parseObject cjson line = some items) : ∃ members, IsObjectLine line members := by
  rw [parseObject, exact.parses] at parsed
  cases read : Json.read line.bytes with
  | none =>
    rw [read] at parsed
    contradiction
  | some found =>
    obtain ⟨value, rest⟩ := found
    rw [read, Option.map_some] at parsed
    cases value with
    | object members =>
      simp only [itemOf] at parsed
      by_cases blank : rest.dropWhile isSpace = []
      · exact ⟨members, rest, read, List.dropWhile_eq_nil_iff.mp blank⟩
      · rw [if_neg blank] at parsed
        contradiction
    | null | bool | number | string | array =>
      simp only [itemOf] at parsed
      contradiction

/-- The item under a key of an object line is that of its field. -/
theorem getItem_of_isObjectLine {line : CStr} {members : List (Bytes × Json)}
    (object : IsObjectLine line members) (key : CStr) :
    getItem cjson line key = (fieldOf members key).map (itemOf strtod) := by
  rw [getItem, parseObject_of_isObjectLine exact object, Option.bind_some]
  exact find_membersOf strtod members key

/-- The text getter answers with the text of a scalar that fits the buffer, and with nothing
else. -/
theorem jsonlGetScalarText_eq_some_iff (printItem : Item → Option CStr) {line : CStr}
    {members : List (Bytes × Json)} (object : IsObjectLine line members) (key : CStr)
    (outSize : Nat) (text : CStr) :
    jsonlGetScalarText cjson printItem line key outSize = some text ↔
      ∃ value, fieldOf members key = some value ∧
        scalarText strtod printItem value = some text ∧ text.bytes.length < outSize := by
  have cut (found : CStr) : (if outSize ≤ found.bytes.length then none else some found) =
      some text ↔ found = text ∧ text.bytes.length < outSize := by
    by_cases long : outSize ≤ found.bytes.length
    · rw [if_pos long]
      constructor
      · intro same
        contradiction
      · rintro ⟨rfl, short⟩
        omega
    · rw [if_neg long, Option.some.injEq]
      constructor
      · rintro rfl
        exact ⟨rfl, Nat.not_le.mp long⟩
      · exact And.left
  rw [jsonlGetScalarText, getItem_of_isObjectLine exact object]
  cases fieldOf members key with
  | none => simp
  | some value =>
    cases value with
    | string inside => simpa [itemOf, scalarText] using cut (.ofBytes inside)
    | array items => simp [itemOf, scalarText]
    | object members => simp [itemOf, scalarText]
    | null | bool | number =>
      simp only [Option.map_some, itemOf, scalarText, Option.some.injEq, exists_eq_left']
      split <;> simp [*]

/-- The integer getter answers with the integer of a field in the exact range, and with nothing
else. -/
theorem jsonlGetInt64_of_isObjectLine {line : CStr} {members : List (Bytes × Json)}
    (object : IsObjectLine line members) (key : CStr) (word : Int64) :
    jsonlGetInt64 cjson line key = some word ↔
      ∃ value field, fieldOf members key = some value ∧ integerOf strtod value = some field ∧
        field.natAbs ≤ 9007199254740991 ∧ word = .ofInt field := by
  rw [jsonlGetInt64_eq_some_iff, getItem_of_isObjectLine exact object]
  cases fieldOf members key with
  | none => simp
  | some value =>
    simp only [Option.map_some, Option.some.injEq, itemOf_eq_number_iff]
    constructor
    · rintro ⟨field, whole, small, same⟩
      exact ⟨value, field, rfl, whole, small, same⟩
    · rintro ⟨_, field, rfl, whole, small, same⟩
      exact ⟨field, whole, small, same⟩

/-! ## The verdict of each operator -/

/-- A line that is no single object gets `-1`. -/
theorem logFilterMatchJsonl_of_no_object (printItem : Item → Option CStr) {line : CStr}
    (none : ¬∃ members, IsObjectLine line members) (filter : Filter) :
    logFilterMatchJsonl cjson printItem line (some filter) = .none := by
  have fails : jsonlIsObject cjson line = false := by
    cases parsed : parseObject cjson line with
    | none => rw [jsonlIsObject, parsed, Option.isSome_none]
    | some items => exact absurd (isObjectLine_of_parseObject exact parsed) none
  rw [logFilterMatchJsonl, fails, if_neg Bool.false_ne_true]

/-- On an object an operator on text answers when the text getter does. -/
theorem logFilterMatchJsonl_text (printItem : Item → Option CStr) {line : CStr}
    {members : List (Bytes × Json)} (object : IsObjectLine line members) {filter : Filter}
    (textual : filter.op ≠ .greaterThan) :
    logFilterMatchJsonl cjson printItem line (some filter) =
      (jsonlGetScalarText cjson printItem line filter.key 1024).map fun text =>
        filter.op.holds text filter.value := by
  have found : jsonlIsObject cjson line = true := by
    rw [jsonlIsObject, parseObject_of_isObjectLine exact object, Option.isSome_some]
  rw [logFilterMatchJsonl, if_pos found]
  split
  · contradiction
  · rfl

/-- On an object `>` always answers; its flag says that both integers are there and compare. -/
theorem logFilterMatchJsonl_greaterThan (printItem : Item → Option CStr) {line : CStr}
    {members : List (Bytes × Json)} (object : IsObjectLine line members) {filter : Filter}
    (greater : filter.op = .greaterThan) :
    ∃ flag, logFilterMatchJsonl cjson printItem line (some filter) = some flag ∧
      (flag = true ↔ ∃ lhs rhs, jsonlGetInt64 cjson line filter.key = some lhs ∧
        parseI64 filter.value = some rhs ∧ rhs < lhs) := by
  have found : jsonlIsObject cjson line = true := by
    rw [jsonlIsObject, parseObject_of_isObjectLine exact object, Option.isSome_some]
  simp only [logFilterMatchJsonl, if_pos found, greater]
  cases jsonlGetInt64 cjson line filter.key with
  | none => exact ⟨false, rfl, by simp⟩
  | some lhs =>
    cases parseI64 filter.value with
    | none => exact ⟨false, rfl, by simp⟩
    | some rhs => exact ⟨_, rfl, by simp⟩

/-- An operator on text keeps the promise exactly when the field's text reaches the buffer. -/
theorem answers_text_iff (printItem : Item → Option CStr) {line : CStr}
    {members : List (Bytes × Json)} (object : IsObjectLine line members) {filter : Filter}
    (textual : filter.op ≠ .greaterThan) :
    Answers strtod printItem filter members
        (logFilterMatchJsonl cjson printItem line (some filter)) ↔
      Fits strtod printItem filter members := by
  have getter := jsonlGetScalarText_eq_some_iff exact printItem object filter.key 1024
  rw [logFilterMatchJsonl_text exact printItem object textual, Fits, if_neg textual]
  cases got : jsonlGetScalarText cjson printItem line filter.key 1024 with
  | none =>
    constructor
    · rintro ⟨flag, same, _⟩
      contradiction
    · rintro ⟨value, text, named, scalar, short⟩
      have reached := (getter text).mpr ⟨value, named, scalar, short⟩
      rw [got] at reached
      contradiction
  | some text =>
    have ⟨value, named, scalar, short⟩ := (getter text).mp got
    constructor
    · intro _
      exact ⟨value, text, named, scalar, short⟩
    · intro _
      refine ⟨filter.op.holds text filter.value, rfl, ?_⟩
      rw [FilterOperator.holds_iff]
      constructor
      · intro related
        refine ⟨value, named, ?_⟩
        rw [Satisfies, if_neg textual]
        exact ⟨text, scalar, related⟩
      · rintro ⟨other, again, satisfied⟩
        rw [named, Option.some.injEq] at again
        rw [Satisfies, if_neg textual, ← again] at satisfied
        have ⟨found, printed, related⟩ := satisfied
        rw [scalar, Option.some.injEq] at printed
        rw [printed]
        exact related

/-- `>` keeps the promise exactly when no greater field is out of its reach. -/
theorem answers_greaterThan_iff (printItem : Item → Option CStr) {line : CStr}
    {members : List (Bytes × Json)} (object : IsObjectLine line members) {filter : Filter}
    (greater : filter.op = .greaterThan) :
    Answers strtod printItem filter members
        (logFilterMatchJsonl cjson printItem line (some filter)) ↔
      Fits strtod printItem filter members := by
  have ⟨flag, result, flagged⟩ := logFilterMatchJsonl_greaterThan exact printItem object greater
  have getter := jsonlGetInt64_of_isObjectLine exact object filter.key
  rw [result, Fits, if_pos greater]
  constructor
  · rintro ⟨other, same, promised⟩ value field operand named whole spells less
    rw [Option.some.injEq] at same
    rw [← same] at promised
    have raised : flag = true := by
      apply promised.mpr
      refine ⟨value, named, ?_⟩
      rw [Satisfies, if_pos greater]
      exact ⟨field, operand, whole, spells, less⟩
    have ⟨lhs, rhs, got, parsed, _⟩ := flagged.mp raised
    have ⟨found, integer, there, integral, small, _⟩ := (getter lhs).mp got
    have ⟨word, spelling, low, _, _⟩ := parseI64_eq_some_iff.mp parsed
    rw [named, Option.some.injEq] at there
    rw [← there, whole, Option.some.injEq] at integral
    rw [spells, Option.some.injEq] at spelling
    rw [integral, spelling]
    exact ⟨small, low⟩
  · intro fits
    refine ⟨flag, rfl, flagged.trans ?_⟩
    constructor
    · rintro ⟨lhs, rhs, got, parsed, less⟩
      have ⟨value, field, named, whole, small, left⟩ := (getter lhs).mp got
      have ⟨operand, spells, low, high, right⟩ := parseI64_eq_some_iff.mp parsed
      rw [left, right, ofInt_lt_ofInt low high (by omega) (by omega)] at less
      refine ⟨value, named, ?_⟩
      rw [Satisfies, if_pos greater]
      exact ⟨field, operand, whole, spells, less⟩
    · rintro ⟨value, named, satisfied⟩
      rw [Satisfies, if_pos greater] at satisfied
      have ⟨field, operand, whole, spells, less⟩ := satisfied
      have ⟨small, low⟩ := fits value field operand named whole spells less
      have high : operand < 2 ^ 63 := by omega
      refine ⟨.ofInt field, .ofInt operand, ?_, ?_, ?_⟩
      · exact (getter _).mpr ⟨value, field, named, whole, small, rfl⟩
      · exact parseI64_eq_some_iff.mpr ⟨operand, spells, low, high, rfl⟩
      · rw [ofInt_lt_ofInt low high (by omega) (by omega)]
        exact less

/-- On an object every operator keeps the promise exactly under its condition. -/
theorem answers_iff (printItem : Item → Option CStr) {line : CStr}
    {members : List (Bytes × Json)} (object : IsObjectLine line members) (filter : Filter) :
    Answers strtod printItem filter members
        (logFilterMatchJsonl cjson printItem line (some filter)) ↔
      Fits strtod printItem filter members := by
  by_cases greater : filter.op = .greaterThan
  · exact answers_greaterThan_iff exact printItem object greater
  · exact answers_text_iff exact printItem object greater

end Exact

/-- For every line and every filter the verdict is as promised exactly when the line is no
single object, or is one under the operator's condition. -/
theorem logFilterMatchJsonl_verdict_iff {cjson : CJson} {strtod : Bytes → Double}
    (exact : cjson.Exact strtod) (printItem : Item → Option CStr) (line : CStr)
    (filter : Filter) :
    Verdict strtod printItem line filter
        (logFilterMatchJsonl cjson printItem line (some filter)) ↔
      ∀ members, IsObjectLine line members → Fits strtod printItem filter members := by
  constructor
  · rintro ⟨_, answers⟩ members object
    exact (answers_iff exact printItem object filter).mp (answers members object)
  · intro fits
    have answers : ∀ members, IsObjectLine line members → Answers strtod printItem filter members
        (logFilterMatchJsonl cjson printItem line (some filter)) :=
      fun members object => (answers_iff exact printItem object filter).mpr (fits members object)
    refine ⟨?_, answers⟩
    constructor
    · rintro none ⟨members, object⟩
      have ⟨flag, flagged, _⟩ := answers members object
      rw [none] at flagged
      contradiction
    · intro none
      exact logFilterMatchJsonl_of_no_object exact printItem none filter

/-- A valid line without the field the default filter asks for. -/
def untypedLine : CStr := .ofBytes (ascii "\x7b\"a\":1\x7d")

/-- The default filter answers `-1` for a valid object that has no such field. -/
theorem logFilterMatchJsonl_untypedLine :
    logFilterParse defaultFilter = some clipFilter ∧ sampleJson.Exact sampleStrtod ∧
      IsObjectLine untypedLine [(ascii "a", .number (ascii "1"))] ∧
      logFilterMatchJsonl sampleJson (fun _ => none) untypedLine (some clipFilter) = none ∧
      ¬Verdict sampleStrtod (fun _ => none) untypedLine clipFilter
        (logFilterMatchJsonl sampleJson (fun _ => none) untypedLine (some clipFilter)) := by
  have object : IsObjectLine untypedLine [(ascii "a", .number (ascii "1"))] :=
    ⟨[], rfl, by simp⟩
  have rejected : logFilterMatchJsonl sampleJson (fun _ => none) untypedLine (some clipFilter) =
      none := by decide +kernel
  refine ⟨logFilterParse_defaultFilter, sampleJson_exact, object, rejected, ?_⟩
  intro verdict
  exact verdict.1.mp rejected ⟨_, object⟩

/-- A line of a clip, with white space behind it. -/
def typedLine : CStr := .ofBytes (ascii "\x7b\"seq\":7,\"type\":\"clip\"\x7d\n")

/-- The condition at a line the default filter accepts. -/
theorem logFilterMatchJsonl_verdict_iff_typedLine :
    Verdict sampleStrtod (fun _ => none) typedLine clipFilter
        (logFilterMatchJsonl sampleJson (fun _ => none) typedLine (some clipFilter)) ↔
      ∀ members, IsObjectLine typedLine members →
        Fits sampleStrtod (fun _ => none) clipFilter members :=
  logFilterMatchJsonl_verdict_iff sampleJson_exact (fun _ => none) typedLine clipFilter

end StreamPipeline.Parse
