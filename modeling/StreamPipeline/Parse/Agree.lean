import StreamPipeline.Codec.Reader
import StreamPipeline.Parse.Filter

/-!
# Filtering before and after the conversion

A record can be filtered by its captured strings, or printed as a line of JSON and filtered
there. The line gives back every captured string, but the filter of JSON Lines mode takes it
into a buffer of 1024 bytes.
-/

namespace StreamPipeline.Parse

open Codec
open Json (Entry itemsText)

/-- One field of `log_output_emit_json`. -/
def fieldText (cjson : CJson) (field : CStr × CStr) : Bytes :=
  jsonlWriteString cjson field.1 ++ ascii ":" ++ jsonlWriteString cjson field.2

/-- `log_output_emit_json`: the line it prints. -/
def logOutputEmitJson (cjson : CJson) (log : Log) : Bytes :=
  ascii "\x7b" ++ itemsText (log.fields.map (fieldText cjson)) ++ ascii "\x7d\n"

section Line

variable {cjson : CJson} {strtod : Bytes → Double}

/-- The members of a printed record. -/
def itemsOfLog (log : Log) : List (CStr × Item) :=
  log.fields.map fun field => (field.1, .string field.2)

/-- A printed line is a whole string. -/
theorem zero_notMem_emitted (cjson : CJson) (log : Log) : 0 ∉ logOutputEmitJson cjson log := by
  have opens : (0 : UInt8) ∉ ascii "\x7b" := by decide
  have closes : (0 : UInt8) ∉ ascii "\x7d\n" := by decide
  have colon : (0 : UInt8) ∉ ascii ":" := by decide
  simp only [logOutputEmitJson, List.mem_append, not_or]
  refine ⟨⟨opens, ?_⟩, closes⟩
  intro member
  rcases Json.mem_itemsText member with comma | ⟨token, printed, inside⟩
  · contradiction
  · obtain ⟨field, -, rfl⟩ := List.mem_map.mp printed
    simp only [fieldText, jsonlWriteString, List.mem_append] at inside
    rcases inside with (name | separator) | value
    · exact (cjson.printString field.1).nulFree name
    · exact colon separator
    · exact (cjson.printString field.2).nulFree value

/-- The object of a record, with white space behind it, is read as the captured strings. -/
theorem parseObject_record (faithful : cjson.Faithful strtod) (log : Log) {line : CStr}
    {blank : Bytes}
    (shape : line.bytes = 123 :: (itemsText (log.fields.map (fieldText cjson)) ++ 125 :: blank))
    (white : blank.dropWhile isSpace = []) : parseObject cjson line = some (itemsOfLog log) := by
  choose inside printed read using faithful.printsBack
  let entry (field : CStr × CStr) : Entry :=
    ⟨inside field.1, field.1.bytes, 34 :: inside field.2, .string field.2.bytes, read field.1,
      Json.reads_string (read field.2)⟩
  have texts : fieldText cjson = Entry.text ∘ entry := by
    funext field
    have colon : ascii ":" = [58] := by decide
    simp [fieldText, jsonlWriteString, printed, colon, Entry.text, entry]
  have members : membersOf strtod (log.fields.map (Entry.member ∘ entry)) = itemsOfLog log := by
    rw [itemsOfLog]
    induction log.fields with
    | nil => rfl
    | cons field fields ih =>
      rw [List.map_cons, List.map_cons, ← ih]
      simp [membersOf, Entry.member, entry, itemOf]
  rcases List.eq_nil_or_concat log.fields with none | ⟨front, last, fields⟩
  · have empty : Json.read (123 :: 125 :: blank) = some (.object [], blank) := by
      simp [Json.read, Json.readValue, Json.skipBlank, Json.isBlank]
    rw [none] at shape
    rw [parseObject, faithful.parses, shape, itemsOfLog, none]
    simp [itemsText, empty, itemOf, membersOf, white]
  · have items : itemsText (log.fields.map (fieldText cjson)) =
        Entry.front (front.map entry) ++ (entry last).text := by
      rw [← Entry.itemsText_append, fields, texts, List.concat_eq_append, ← List.map_map,
        List.map_append, List.map_singleton]
    rw [items, List.append_assoc] at shape
    have line := parseObject_entries faithful.toExact (front.map entry) (entry last) shape white
    rw [line, ← members, fields, List.concat_eq_append, ← List.map_map, List.map_append,
      List.map_append, List.map_singleton, List.map_singleton]

/-- A printed line is one object with the captured strings as members. -/
theorem parseObject_emitted (faithful : cjson.Faithful strtod) (log : Log) :
    parseObject cjson (.ofBytes (logOutputEmitJson cjson log)) = some (itemsOfLog log) := by
  have opens : ascii "\x7b" = [123] := by decide
  have closes : ascii "\x7d\n" = [125, 10] := by decide
  have whole := CStr.bytes_ofBytes (zero_notMem_emitted cjson log)
  have white : ([10] : Bytes).dropWhile isSpace = [] := by decide
  have shape : (CStr.ofBytes (logOutputEmitJson cjson log)).bytes =
      123 :: (itemsText (log.fields.map (fieldText cjson)) ++ 125 :: [10]) := by
    rw [whole, logOutputEmitJson, opens, closes]
    simp
  exact parseObject_record faithful log shape white

section Members

variable {log : Log} {line : CStr} (parsed : parseObject cjson line = some (itemsOfLog log))

include parsed

/-- The member found under a key is the captured string found under it. -/
theorem getItem_record (key : CStr) : getItem cjson line key = (logGet log key).map .string := by
  rw [getItem, parsed, Option.bind_some, itemsOfLog, logGet, List.find?_map, Option.map_map,
    Option.map_map]
  rfl

/-- The text of a member, when it fits the buffer. -/
theorem jsonlGetScalarText_record (printItem : Item → Option CStr) (key : CStr) (outSize : Nat) :
    jsonlGetScalarText cjson printItem line key outSize =
      (logGet log key).filter fun value => value.bytes.length < outSize := by
  rw [jsonlGetScalarText, getItem_record parsed]
  cases logGet log key with
  | none => rfl
  | some value =>
    by_cases fits : value.bytes.length < outSize
    · simp [fits, Option.filter_some]
    · simp [fits, Option.filter_some, Nat.not_lt.mp fits]

/-- A member is no number. -/
theorem jsonlGetInt64_record (key : CStr) : jsonlGetInt64 cjson line key = none := by
  rw [jsonlGetInt64, getItem_record parsed]
  cases logGet log key <;> rfl

/-- The filter of JSON Lines mode accepts the object of a record when the operator compares texts,
and the captured string fits the buffer and compares. -/
theorem logFilterMatchJsonl_record (printItem : Item → Option CStr) (filter : Filter) :
    logFilterMatchJsonl cjson printItem line (some filter) = some true ↔
      filter.op ≠ .greaterThan ∧ ∃ value, logGet log filter.key = some value ∧
        value.bytes.length < 1024 ∧ filter.op.holds value filter.value = true := by
  have object : jsonlIsObject cjson line = true := by
    rw [jsonlIsObject, parsed]
    rfl
  obtain ⟨key, operand, op⟩ := filter
  simp only [logFilterMatchJsonl, object, ↓reduceIte]
  cases op with
  | greaterThan => simp [jsonlGetInt64_record parsed]
  | equals | notEquals | contains =>
    simp [jsonlGetScalarText_record parsed, Option.filter_eq_some_iff, and_assoc]

end Members

/-- The filter of regex mode accepts a record when the captured string compares. -/
theorem logFilterMatchFields_iff (log : Log) {filter : Filter}
    (textual : filter.op ≠ .greaterThan) :
    logFilterMatchFields log (some filter) = true ↔
      ∃ value, logGet log filter.key = some value ∧
        filter.op.holds value filter.value = true := by
  obtain ⟨key, operand, op⟩ := filter
  cases op with
  | greaterThan => exact absurd rfl textual
  | equals | notEquals | contains =>
    simp only [logFilterMatchFields]
    cases logGet log key <;> simp

/-- Both filters keep the same records exactly when the captured string under the filter's key
is shorter than the buffer or does not compare. -/
theorem filters_agree_iff (faithful : cjson.Faithful strtod) (printItem : Item → Option CStr)
    (log : Log) {filter : Filter} (textual : filter.op ≠ .greaterThan) :
    (logFilterMatchFields log (some filter) = true ↔
        logFilterMatchJsonl cjson printItem (.ofBytes (logOutputEmitJson cjson log))
          (some filter) = some true) ↔
      ∀ value ∈ logGet log filter.key,
        value.bytes.length < 1024 ∨ filter.op.holds value filter.value = false := by
  rw [logFilterMatchFields_iff log textual,
    logFilterMatchJsonl_record (parseObject_emitted faithful log) printItem filter,
    and_iff_right textual]
  cases found : logGet log filter.key with
  | none => simp
  | some value =>
    cases compares : filter.op.holds value filter.value with
    | false => simp [compares]
    | true => simp [compares]

end Line

/-- A record with two captured strings, one of them in need of escapes. -/
def twoFields : Log :=
  ⟨[(.ofBytes (ascii "level"), .ofBytes (ascii "warn")),
    (.ofBytes (ascii "msg"), .ofBytes (ascii "a \"b\"\tc"))]⟩

/-- The filter `msg~b`. -/
def containsFilter : Filter := ⟨.ofBytes (ascii "msg"), .ofBytes (ascii "b"), .contains⟩

/-- A short string with escapes. -/
theorem filters_agree_iff_twoFields :
    (logFilterMatchFields twoFields (some containsFilter) = true ↔
        logFilterMatchJsonl sampleJson (fun _ => none)
          (.ofBytes (logOutputEmitJson sampleJson twoFields)) (some containsFilter) =
            some true) ↔
      ∀ value ∈ logGet twoFields containsFilter.key,
        value.bytes.length < 1024 ∨
          containsFilter.op.holds value containsFilter.value = false :=
  filters_agree_iff sampleJson_faithful (fun _ => none) twoFields (by decide)

/-- A record whose only captured string has 1024 bytes. -/
def longField : Log :=
  ⟨[(.ofBytes (ascii "msg"), .ofBytes (List.replicate 1024 98))]⟩

/-- The filter `msg~b` keeps the record before the conversion and drops it behind it. -/
theorem long_string_dropped :
    logFilterMatchFields longField (some containsFilter) = true ∧
      logFilterMatchJsonl sampleJson (fun _ => none)
        (.ofBytes (logOutputEmitJson sampleJson longField)) (some containsFilter) ≠
          some true := by
  refine ⟨by decide +kernel, ?_⟩
  intro matched
  obtain ⟨-, value, found, short, -⟩ := (logFilterMatchJsonl_record
    (parseObject_emitted sampleJson_faithful longField) (fun _ => none) containsFilter).mp matched
  have only : logGet longField containsFilter.key =
      some (.ofBytes (List.replicate 1024 98)) := by decide +kernel
  have length : (CStr.ofBytes (List.replicate 1024 98)).bytes.length = 1024 := by
    decide +kernel
  rw [only] at found
  rw [← Option.some.inj found, length] at short
  exact absurd short (by decide)

end StreamPipeline.Parse
