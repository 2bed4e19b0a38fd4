import StreamPipeline.Codec.Jsonl
import StreamPipeline.Lib.Lines

/-!
# Filter expressions

A filter compares one field with a text. Regex mode applies it to the captured strings, JSON
Lines mode to the member of the object, which first goes through a buffer of 1024 bytes. An
expression is searched whole for each operator in a fixed order, so an operator inside the value
can win over the one that was written.
-/

namespace StreamPipeline.Parse

open Codec

/-- `filter_operator_t`. -/
inductive FilterOperator where
  /-- `FILTER_EQUALS`. -/
  | equals
  /-- `FILTER_NOT_EQUALS`. -/
  | notEquals
  /-- `FILTER_GREATER_THAN`. -/
  | greaterThan
  /-- `FILTER_CONTAINS`. -/
  | contains
  deriving DecidableEq

/-- `filter_t`. -/
structure Filter where
  /-- `key`. -/
  key : CStr
  /-- `value`. -/
  value : CStr
  /-- `op`. -/
  op : FilterOperator
  deriving DecidableEq

/-- `log_t`: the captured fields, each with its name. -/
structure Log where
  /-- `names` and `values`. -/
  fields : List (CStr × CStr)

/-- `strstr`: the text from the first occurrence on. -/
def strstr (needle : Bytes) : Bytes → Option Bytes
  | [] => if needle.isPrefixOf [] then some [] else none
  | byte :: text =>
    if needle.isPrefixOf (byte :: text) then some (byte :: text) else strstr needle text

/-- `log_get`. -/
def logGet (log : Log) (key : CStr) : Option CStr :=
  (log.fields.find? fun field => field.1 = key).map Prod.snd

/-- `parse_i64`. -/
def parseI64 (text : CStr) : Option Int64 :=
  match strtolExact text.bytes with
  | some (value, []) => some value
  | _ => none

/-- An expression split at an operator of some bytes. -/
def splitFilter (expr : CStr) (op : FilterOperator) (sign : Bytes) : Option Filter :=
  (strstr sign expr.bytes).map fun found => {
    key := .ofBytes (expr.bytes.take (expr.bytes.length - found.length))
    value := .ofBytes (found.drop sign.length)
    op }

/-- `log_filter_parse`. -/
def logFilterParse (expr : CStr) : Option Filter :=
  match (splitFilter expr .notEquals (ascii "!=")).or
      ((splitFilter expr .greaterThan (ascii ">")).or
        ((splitFilter expr .contains (ascii "~")).or (splitFilter expr .equals (ascii "=")))) with
  | none => none
  | some filter => if filter.key.bytes ≠ [] ∧ filter.value.bytes ≠ [] then some filter else none

/-- The comparison of a text with the filter's, for the operators on text. -/
def FilterOperator.holds (op : FilterOperator) (value operand : CStr) : Bool :=
  match op with
  | .equals => value = operand
  | .notEquals => value ≠ operand
  | .contains => (strstr operand.bytes value.bytes).isSome
  | .greaterThan => false

/-- `log_filter_match_fields`; without a filter every record matches. -/
def logFilterMatchFields (log : Log) : Option Filter → Bool
  | none => true
  | some filter =>
    match logGet log filter.key with
    | none => false
    | some value =>
      match filter.op with
      | .greaterThan =>
        match parseI64 value, parseI64 filter.value with
        | some lhs, some rhs => rhs < lhs
        | _, _ => false
      | op => op.holds value filter.value

/-- `log_filter_match_jsonl`: the flag it sets when it returns `0`; none is its `-1`. -/
def logFilterMatchJsonl (cjson : CJson) (printItem : Item → Option CStr) (line : CStr) :
    Option Filter → Option Bool
  | none => if jsonlIsObject cjson line then some true else none
  | some filter =>
    if jsonlIsObject cjson line then
      match filter.op with
      | .greaterThan =>
        match jsonlGetInt64 cjson line filter.key, parseI64 filter.value with
        | some lhs, some rhs => some (rhs < lhs)
        | _, _ => some false
      | op =>
        (jsonlGetScalarText cjson printItem line filter.key 1024).map fun value =>
          op.holds value filter.value
    else none

/-- `DEFAULT_FILTER`. -/
def defaultFilter : CStr := .ofBytes (ascii "type=clip")

/-- The filter of the default expression. -/
def clipFilter : Filter := ⟨.ofBytes (ascii "type"), .ofBytes (ascii "clip"), .equals⟩

/-- The default expression asks for clips. -/
theorem logFilterParse_defaultFilter : logFilterParse defaultFilter = some clipFilter := by
  decide

/-- A search passes over bytes that do not start the needle. -/
theorem strstr_append {start : UInt8} {needle front : Bytes} (rest : Bytes)
    (clean : start ∉ front) :
    strstr (start :: needle) (front ++ rest) = strstr (start :: needle) rest := by
  induction front with
  | nil => rfl
  | cons byte front ih =>
    have other : start ≠ byte := by
      rintro rfl
      exact clean List.mem_cons_self
    have later : start ∉ front := fun member => clean (List.mem_cons_of_mem byte member)
    have fails : (start :: needle).isPrefixOf (byte :: (front ++ rest)) = false := by
      simp [List.isPrefixOf, other]
    rw [List.cons_append, strstr, fails, if_neg (by decide)]
    exact ih later

/-- A search ends at once where the needle stands. -/
theorem strstr_prefix (needle rest : Bytes) (filled : needle ≠ []) :
    strstr needle (needle ++ rest) = some (needle ++ rest) := by
  obtain ⟨start, needle, rfl⟩ := List.exists_cons_of_ne_nil filled
  have here : (start :: needle).isPrefixOf (start :: (needle ++ rest)) = true := by
    rw [List.isPrefixOf_iff_prefix]
    exact ⟨rest, rfl⟩
  rw [List.cons_append, strstr, if_pos here]

/-- A search finds something exactly in a text that has the needle in it. -/
theorem isSome_strstr {needle : Bytes} (text : Bytes) :
    (strstr needle text).isSome = true ↔ needle <:+: text := by
  induction text with
  | nil =>
    rw [strstr]
    split <;> simp_all
  | cons byte text ih =>
    rw [List.infix_cons_iff, ← List.isPrefixOf_iff_prefix, ← ih, strstr]
    split <;> simp_all

/-- `parse_i64` takes exactly the texts that spell an integer of the word. -/
theorem parseI64_eq_some_iff {text : CStr} {word : Int64} :
    parseI64 text = some word ↔ ∃ value, spelled text.bytes = some value ∧
      -2 ^ 63 ≤ value ∧ value < 2 ^ 63 ∧ word = .ofInt value := by
  cases spells : spelled text.bytes with
  | none =>
    have fails : ∀ read, strtolExact text.bytes ≠ some (read, []) := by
      intro read taken
      have some := spelled_of_strtolExact taken
      rw [spells] at some
      contradiction
    rw [parseI64]
    split
    · exact absurd ‹_› (fails _)
    · simp
  | some value =>
    rw [parseI64, strtolExact_spelled spells]
    by_cases fits : -2 ^ 63 ≤ value ∧ value < 2 ^ 63
    · rw [if_pos fits]
      constructor
      · intro same
        exact ⟨value, rfl, fits.1, fits.2, (Option.some.inj same).symm⟩
      · rintro ⟨other, same, -, -, rfl⟩
        rw [Option.some.inj same]
    · rw [if_neg fits]
      constructor
      · intro same
        contradiction
      · rintro ⟨other, same, low, high, -⟩
        rw [← Option.some.inj same] at low high
        exact absurd ⟨low, high⟩ fits

/-- The characters of an operator in an expression. -/
def FilterOperator.sign : FilterOperator → Bytes
  | .equals => ascii "="
  | .notEquals => ascii "!="
  | .greaterThan => ascii ">"
  | .contains => ascii "~"

/-- The operators `log_filter_parse` looks for before one. -/
def FilterOperator.before : FilterOperator → List FilterOperator
  | .notEquals => []
  | .greaterThan => [.notEquals]
  | .contains => [.notEquals, .greaterThan]
  | .equals => [.notEquals, .greaterThan, .contains]

/-- The expression as it is written. -/
def Filter.expr (filter : Filter) : CStr := filter.key ++ .ofBytes filter.op.sign ++ filter.value

/-- A key can name a field in an expression when it is there and has no operator's character. -/
def Plain (key : CStr) : Prop := key.bytes ≠ [] ∧ ∀ byte ∈ key.bytes, byte ∉ ascii "!=>~"

instance (key : CStr) : Decidable (Plain key) := inferInstanceAs (Decidable (_ ∧ _))

/-- The operators in the order `log_filter_parse` looks for them. -/
def FilterOperator.order : List FilterOperator := [.notEquals, .greaterThan, .contains, .equals]

/-- The parser splits at the first operator of its order that is anywhere in the expression. -/
theorem logFilterParse_order (expr : CStr) :
    logFilterParse expr =
      (FilterOperator.order.findSome? fun op => splitFilter expr op op.sign).filter fun filter =>
        filter.key.bytes ≠ [] ∧ filter.value.bytes ≠ [] := by
  rw [logFilterParse]
  simp only [FilterOperator.order, FilterOperator.sign, List.findSome?_cons, List.findSome?_nil]
  cases splitFilter expr .notEquals (ascii "!=") <;>
    cases splitFilter expr .greaterThan (ascii ">") <;>
    cases splitFilter expr .contains (ascii "~") <;>
    cases splitFilter expr .equals (ascii "=") <;>
    simp [Option.filter]

/-- An operator looked for earlier starts with a character that neither a key nor the operator
itself has. -/
theorem FilterOperator.start_of_before {op earlier : FilterOperator} (first : earlier ∈ op.before) :
    ∃ start rest, earlier.sign = start :: rest ∧ start ∉ op.sign ∧ start ∈ ascii "!=>~" := by
  cases op <;> cases earlier <;> first
    | exact absurd first (by decide)
    | exact ⟨_, _, rfl, by decide, by decide⟩

/-- An operator looked for earlier is found in the expression exactly when the value has it. -/
theorem splitFilter_before {filter : Filter} (plain : Plain filter.key)
    {earlier : FilterOperator} (first : earlier ∈ filter.op.before) :
    (splitFilter filter.expr earlier earlier.sign).isSome = true ↔
      earlier.sign <:+: filter.value.bytes := by
  obtain ⟨start, rest, sign, other, special⟩ := FilterOperator.start_of_before first
  have outside : start ∉ filter.key.bytes ++ filter.op.sign := by
    rw [List.mem_append, not_or]
    exact ⟨fun member => plain.2 start member special, other⟩
  have whole : (CStr.ofBytes filter.op.sign).bytes = filter.op.sign := by
    cases filter.op <;> rfl
  rw [splitFilter, Option.isSome_map, ← isSome_strstr, Filter.expr, CStr.bytes_append,
    CStr.bytes_append, whole, sign, strstr_append _ outside]

/-- Where an expression is split at its own operator, the pieces are the key and the value. -/
theorem splitFilter_own {filter : Filter} (plain : Plain filter.key) :
    splitFilter filter.expr filter.op filter.op.sign = some filter := by
  obtain ⟨key, value, op⟩ := filter
  have shape : ∃ start rest, op.sign = start :: rest ∧ start ∈ ascii "!=>~" := by
    cases op <;> exact ⟨_, _, rfl, by decide⟩
  obtain ⟨start, rest, sign, special⟩ := shape
  have outside : start ∉ key.bytes := fun member => plain.2 start member special
  have whole : (CStr.ofBytes op.sign).bytes = op.sign := by
    cases op <;> rfl
  have text : (Filter.expr ⟨key, value, op⟩).bytes = key.bytes ++ (op.sign ++ value.bytes) := by
    rw [Filter.expr, CStr.bytes_append, CStr.bytes_append, whole, List.append_assoc]
  have found : strstr op.sign (key.bytes ++ (op.sign ++ value.bytes)) =
      some (op.sign ++ value.bytes) := by
    rw [sign, strstr_append _ outside]
    exact strstr_prefix _ _ (List.cons_ne_nil _ _)
  simp [splitFilter, text, found]

/-- An expression is read as it was written exactly when its value has no operator that is
looked for earlier. -/
theorem logFilterParse_expr_iff {filter : Filter} (plain : Plain filter.key)
    (filled : filter.value.bytes ≠ []) :
    logFilterParse filter.expr = some filter ↔
      ∀ earlier ∈ filter.op.before, ¬ earlier.sign <:+: filter.value.bytes := by
  have position : ∃ after, FilterOperator.order = filter.op.before ++ filter.op :: after := by
    cases filter.op <;> exact ⟨_, rfl⟩
  obtain ⟨after, order⟩ := position
  have own := splitFilter_own plain
  rw [logFilterParse_order, order, List.findSome?_append, List.findSome?_cons, own]
  constructor
  · intro read earlier first inside
    have found := (splitFilter_before plain first).mpr inside
    cases split : filter.op.before.findSome? fun op => splitFilter filter.expr op op.sign with
    | none =>
      rw [List.findSome?_eq_none_iff] at split
      rw [split earlier first] at found
      contradiction
    | some other =>
      obtain ⟨sooner, member, same⟩ := List.exists_of_findSome?_eq_some split
      have kept : other.op = sooner := by
        obtain ⟨_, -, rfl⟩ := Option.map_eq_some_iff.mp same
        rfl
      rw [split, Option.some_or, Option.filter_eq_some_iff] at read
      rw [← kept, Option.some.inj read.1] at member
      revert member
      cases filter.op <;> decide
  · intro absent
    have none : (filter.op.before.findSome? fun op => splitFilter filter.expr op op.sign) =
        none := by
      rw [List.findSome?_eq_none_iff]
      intro earlier first
      have missing := absent earlier first
      rw [← splitFilter_before plain first] at missing
      exact Option.not_isSome_iff_eq_none.mp missing
    rw [none, Option.none_or, Option.filter_some, if_pos (by simp [plain.1, filled])]

/-- `level!=a=b`: the value has an operator, but none that is looked for earlier. -/
def negatedFilter : Filter := ⟨.ofBytes (ascii "level"), .ofBytes (ascii "a=b"), .notEquals⟩

/-- An expression that is read as it was written. -/
theorem logFilterParse_expr_iff_negated :
    logFilterParse negatedFilter.expr = some negatedFilter ↔
      ∀ earlier ∈ negatedFilter.op.before, ¬ earlier.sign <:+: negatedFilter.value.bytes :=
  logFilterParse_expr_iff (by decide +kernel) (by decide)

/-- `path=a>b`: the value has an operator that is looked for earlier. -/
def arrowFilter : Filter := ⟨.ofBytes (ascii "path"), .ofBytes (ascii "a>b"), .equals⟩

/-- The key is plain and the value is there, but the expression is split inside the value. -/
theorem arrow_misread :
    Plain arrowFilter.key ∧ arrowFilter.value.bytes ≠ [] ∧
      logFilterParse arrowFilter.expr =
        some ⟨.ofBytes (ascii "path=a"), .ofBytes (ascii "b"), .greaterThan⟩ ∧
      logFilterParse arrowFilter.expr ≠ some arrowFilter := by
  decide +kernel

end StreamPipeline.Parse
