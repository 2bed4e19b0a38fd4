import StreamPipeline.Codec.Reader
import StreamPipeline.Lib.Strtod
import StreamPipeline.Parse.Main

/-!
# Aggregates of a field

`log_parse` folds one field of the records that pass the filter. JSON Lines mode takes the field
of an object only where it is an integer. Regex mode takes the captured text of every record
through `atof`, which reads a text without a number as zero.
-/

namespace StreamPipeline.Parse

open Codec

/-- `agg_op_t`. -/
inductive AggOp where
  /-- `AGG_SUM`. -/
  | sum
  /-- `AGG_AVG`. -/
  | avg
  /-- `AGG_MIN`. -/
  | min
  /-- `AGG_MAX`. -/
  | max
  deriving DecidableEq

/-- The accumulators of `log_parse_main`. -/
structure Aggregate where
  /-- `agg_sum`. -/
  sum : Binary64
  /-- `agg_min`. -/
  min : Binary64
  /-- `agg_max`. -/
  max : Binary64
  /-- `agg_count`. -/
  count : Nat
  deriving DecidableEq

namespace Aggregate

/-- The accumulators before the first line. -/
def start : Aggregate := ⟨.finite 0, .finite 0, .finite 0, 0⟩

/-- One value is taken in; the first one starts the minimum and the maximum. -/
def take (agg : Aggregate) (val : Binary64) : Aggregate :=
  let least := if agg.count = 0 then val else agg.min
  let greatest := if agg.count = 0 then val else agg.max
  { sum := agg.sum.add val
    min := if val.lt least then val else least
    max := if greatest.lt val then val else greatest
    count := agg.count + 1 }

/-- The number that is printed, an average before it is rounded; `0` is printed for none. -/
def result (agg : Aggregate) (op : AggOp) : Option Binary64 :=
  if agg.count = 0 then none
  else
    match op with
    | .sum => some agg.sum
    | .avg => some (.quotient agg.count agg.sum)
    | .min => some agg.min
    | .max => some agg.max

end Aggregate

/-- The lines of `getline` folded by the value each of them has. -/
def aggregate (value : Bytes → Option Binary64) (input : List Bytes) : Aggregate :=
  input.foldl (fun agg line => (value line).elim agg agg.take) .start

/-- `log_regex_parse_line`: the captured fields of a line, from the ends of the groups that
`regexec` reports; none when the line or a group does not match. -/
def logRegexParseLine (regexec : CStr → Option (Nat → Int × Int)) (names : List CStr)
    (line : CStr) : Option Log :=
  (regexec line).bind fun groups =>
    (names.zipIdx.mapM fun (entry : CStr × Nat) =>
      let (so, eo) := groups (entry.2 + 1)
      if so < 0 ∨ eo < so then none
      else some (entry.1, CStr.ofBytes ((line.bytes.drop so.toNat).take (eo - so).toNat))).map
      Log.mk

/-- The text of the aggregated field, on a line that matches and passes the filter. -/
def regexField (regexec : CStr → Option (Nat → Int × Int)) (names : List CStr)
    (filter : Option Filter) (aggFieldIdx : Nat) (line : Bytes) : Option CStr :=
  (logRegexParseLine regexec names (trimLine line)).bind fun log =>
    if logFilterMatchFields log filter then log.fields[aggFieldIdx]?.map Prod.snd else none

/-- The value a line has in regex mode. -/
def regexValue (regexec : CStr → Option (Nat → Int × Int)) (names : List CStr)
    (filter : Option Filter) (aggFieldIdx : Nat) (line : Bytes) : Option Binary64 :=
  (regexField regexec names filter aggFieldIdx line).map atof

/-- The value a line has in JSON Lines mode, on an object that passes the filter. -/
def jsonlValue (cjson : CJson) (printItem : Item → Option CStr) (filter : Option Filter)
    (aggField : CStr) (line : Bytes) : Option Binary64 :=
  match logFilterMatchJsonl cjson printItem (trimLine line) filter with
  | some true =>
    (jsonlGetInt64 cjson (trimLine line) aggField).map fun i64 => .nearest i64.toInt
  | _ => none

/-- `log_parse_main` with an aggregate in regex mode, over the lines `getline` returns; none when
the field is not one of those captured. -/
def logParseRegexAggregate (regexec : CStr → Option (Nat → Int × Int)) (names : List CStr)
    (filter : Option Filter) (op : AggOp) (aggField : CStr) (input : List Bytes) :
    Option (Option Binary64) :=
  (names.findIdx? (· = aggField)).map fun aggFieldIdx =>
    (aggregate (regexValue regexec names filter aggFieldIdx) input).result op

/-- `log_parse_main` with an aggregate in JSON Lines mode. -/
def logParseJsonlAggregate (cjson : CJson) (printItem : Item → Option CStr)
    (filter : Option Filter) (op : AggOp) (aggField : CStr) (input : List Bytes) :
    Option Binary64 :=
  (aggregate (jsonlValue cjson printItem filter aggField) input).result op

/-- Only the lines with a value count. -/
theorem aggregate_eq (value : Bytes → Option Binary64) (input : List Bytes) :
    aggregate value input = (input.filterMap value).foldl Aggregate.take .start := by
  rw [aggregate, List.foldl_filterMap]
  congr 1
  funext agg line
  cases value line <;> rfl

/-- Integers as doubles. -/
def finites (values : List Int) : List Binary64 :=
  values.map fun (value : Int) => .finite (value : Rat)

/-- What the accumulators hold after integers whose sums are exact. -/
structure Aggregate.Holds (agg : Aggregate) (values : List Int) : Prop where
  sum : agg.sum = .finite (values.sum : Int)
  count : agg.count = values.length
  min : values ≠ [] → ∃ least ∈ values, agg.min = .finite least ∧ ∀ value ∈ values, least ≤ value
  max : values ≠ [] →
    ∃ greatest ∈ values, agg.max = .finite greatest ∧ ∀ value ∈ values, value ≤ greatest

/-- The sum of the first values has at most 53 bits, wherever they end. -/
def ExactSums (values : List Int) : Prop := ∀ first, first <+: values → |first.sum| < 2 ^ 53

/-- The extreme member of a run in an order, after one more value. -/
private theorem extreme_append (le : Int → Int → Prop) (trans : ∀ a b c, le a b → le b c → le a c)
    (total : ∀ a b, ¬ le a b → le b a) (refl : ∀ a, le a a) {values : List Int} {best : Int}
    (member : best ∈ values) (bound : ∀ value ∈ values, le best value) (value : Int) :
    ∃ next ∈ values ++ [value], (le best value ∧ next = best ∨ ¬ le best value ∧ next = value) ∧
      ∀ other ∈ values ++ [value], le next other := by
  by_cases keeps : le best value
  · refine ⟨best, List.mem_append_left _ member, .inl ⟨keeps, rfl⟩, ?_⟩
    intro other inside
    rcases List.mem_append.mp inside with old | new
    · exact bound other old
    · rw [List.mem_singleton.mp new]
      exact keeps
  · refine ⟨value, by simp, .inr ⟨keeps, rfl⟩, ?_⟩
    intro other inside
    rcases List.mem_append.mp inside with old | new
    · exact trans _ _ _ (total _ _ keeps) (bound other old)
    · rw [List.mem_singleton.mp new]
      exact refl value

/-- An accumulator of the extreme value, after one more: the first value starts it, a later one
replaces it when it beats it. -/
private theorem extreme_take (le : Int → Int → Prop) (trans : ∀ a b c, le a b → le b c → le a c)
    (total : ∀ a b, ¬ le a b → le b a) (refl : ∀ a, le a a) (beats : Binary64 → Binary64 → Bool)
    (decides : ∀ value best : Int,
      beats (.finite (value : Rat)) (.finite (best : Rat)) = true ↔ ¬ le best value)
    {values : List Int} {count : Nat} {current : Binary64} (counts : count = values.length)
    (held : values ≠ [] →
      ∃ best ∈ values, current = .finite best ∧ ∀ value ∈ values, le best value)
    (value : Int) :
    ∃ next ∈ values ++ [value],
      (if beats (.finite (value : Rat)) (if count = 0 then .finite value else current) then
        .finite (value : Rat) else (if count = 0 then .finite value else current)) =
          .finite (next : Rat) ∧
      ∀ other ∈ values ++ [value], le next other := by
  by_cases empty : values = []
  · have first : count = 0 := by simp [counts, empty]
    refine ⟨value, by simp, ?_, ?_⟩
    · rw [if_pos first, ite_self]
    · simpa [empty] using refl value
  · have later : count ≠ 0 := by simpa [counts] using empty
    have ⟨best, member, same, bound⟩ := held empty
    have ⟨next, inside, choice, extreme⟩ :=
      extreme_append le trans total refl member bound value
    refine ⟨next, inside, ?_, extreme⟩
    rw [if_neg later, same]
    rcases choice with ⟨keeps, rfl⟩ | ⟨beaten, rfl⟩
    · have stays := (decides value next).not.mpr (not_not.mpr keeps)
      rw [if_neg stays]
    · rw [if_pos ((decides next best).mpr beaten)]

/-- One more integer. -/
theorem Aggregate.Holds.take {agg : Aggregate} {values : List Int} (holds : agg.Holds values)
    {value : Int} (small : |values.sum + value| < 2 ^ 53) :
    (agg.take (.finite value)).Holds (values ++ [value]) where
  sum := by
    have total := Binary64.add_intCast small
    simp only [Aggregate.take, holds.sum, List.sum_append, List.sum_singleton]
    exact total
  count := by
    simp [Aggregate.take, holds.count]
  min := by
    intro _
    apply extreme_take (· ≤ ·) (fun _ _ _ => Int.le_trans) (fun _ _ => by omega) Int.le_refl
      (fun value least => value.lt least) ?_ holds.count holds.min value
    intro value least
    simp [Binary64.lt]
  max := by
    intro _
    apply extreme_take (· ≥ ·) (fun _ _ _ => ge_trans) (fun _ _ => by omega) Int.le_refl
      (fun value greatest => greatest.lt value) ?_ holds.count holds.max value
    intro value greatest
    simp [Binary64.lt]

/-- All integers of a run. -/
theorem Aggregate.holds_foldl {values : List Int} (exact : ExactSums values) :
    ((finites values).foldl Aggregate.take .start).Holds values := by
  induction values using List.reverseRecOn with
  | nil => exact ⟨by simp [finites, Aggregate.start], rfl, by simp, by simp⟩
  | append_singleton values value ih =>
    have earlier : ExactSums values := fun first front =>
      exact first (front.trans (List.prefix_append values [value]))
    have whole := exact _ List.prefix_rfl
    rw [List.sum_append, List.sum_singleton] at whole
    rw [finites, List.map_append, List.foldl_append]
    exact (ih earlier).take whole

/-- Zeros do not change the aggregate of some integers. -/
def Neutral (values : List Int) : AggOp → Prop
  | .sum => values ≠ []
  | .avg => values ≠ [] ∧ values.sum = 0
  | .min => ∃ value ∈ values, value ≤ 0
  | .max => ∃ value ∈ values, 0 ≤ value

/-- The numbers among some fields, where a field without one is none. -/
def numbers (fields : List (Option Int)) : List Int := fields.filterMap id

/-- The fields as `atof` reads them. -/
def zeroed (fields : List (Option Int)) : List Int := fields.map fun field => field.getD 0

/-- Zeros do not change the sum. -/
theorem sum_zeroed (fields : List (Option Int)) : (zeroed fields).sum = (numbers fields).sum := by
  induction fields with
  | nil => rfl
  | cons field fields ih =>
    cases field with
    | none => simpa [zeroed, numbers] using ih
    | some value => simpa [zeroed, numbers] using ih

/-- What is read is a number or the zero of a field without one. -/
theorem mem_zeroed {fields : List (Option Int)} {value : Int} :
    value ∈ zeroed fields ↔ value ∈ numbers fields ∨ value = 0 ∧ none ∈ fields := by
  induction fields with
  | nil => simp [zeroed, numbers]
  | cons field fields ih =>
    cases field with
    | none =>
      simp only [zeroed, numbers, List.map_cons, Option.getD_none, List.mem_cons,
        List.filterMap_cons_none, id_eq, true_or, and_true] at ih ⊢
      rw [ih]
      tauto
    | some number =>
      have other : (none : Option Int) ≠ some number := by simp
      simp only [zeroed, numbers, List.map_cons, Option.getD_some, List.mem_cons, other, false_or,
        List.filterMap_cons_some (f := id) (b := number) rfl] at ih ⊢
      rw [ih]
      tauto

/-- The counts differ by the fields without a number. -/
theorem length_zeroed (fields : List (Option Int)) :
    (zeroed fields).length = (numbers fields).length + fields.count none := by
  induction fields with
  | nil => rfl
  | cons field fields ih =>
    cases field with
    | none =>
      simp only [zeroed, numbers, List.map_cons, List.length_cons, List.count_cons_self,
        List.filterMap_cons_none, id_eq] at ih ⊢
      omega
    | some value =>
      simp only [zeroed, numbers, List.map_cons, List.length_cons,
        List.filterMap_cons_some (f := id) (b := value) rfl] at ih ⊢
      rw [List.count_cons_of_ne (by simp)]
      omega

/-- The sums stay exact. -/
theorem ExactSums.zeroed {fields : List (Option Int)} (exact : ExactSums (numbers fields)) :
    ExactSums (zeroed fields) := by
  intro first front
  obtain ⟨prior, before, rfl⟩ := List.prefix_map_iff.mp front
  rw [← Parse.zeroed, sum_zeroed]
  exact exact _ (before.filterMap id)

/-- The extreme of what is read is that of the numbers unless a zero comes in that goes beyond
all of them. -/
private theorem extreme_zeroed_iff (le : Int → Int → Prop)
    (trans : ∀ a b c, le a b → le b c → le a c) (antisymm : ∀ a b, le a b → le b a → a = b)
    {fields : List (Option Int)} {strict lax : Int} (among : strict ∈ numbers fields)
    (skips : ∀ value ∈ numbers fields, le strict value) (read : lax ∈ zeroed fields)
    (reads : ∀ value ∈ zeroed fields, le lax value) :
    lax = strict ↔ none ∉ fields ∨ ∃ value ∈ numbers fields, le value 0 := by
  constructor
  · intro same
    by_cases full : none ∉ fields
    · exact .inl full
    · have zero : (0 : Int) ∈ zeroed fields := mem_zeroed.mpr (.inr ⟨rfl, not_not.mp full⟩)
      exact .inr ⟨strict, among, same ▸ reads 0 zero⟩
  · intro neutral
    apply antisymm
    · exact reads strict (mem_zeroed.mpr (.inl among))
    · rcases mem_zeroed.mp read with number | ⟨zero, without⟩
      · exact skips lax number
      · rcases neutral with full | ⟨value, member, below⟩
        · exact absurd without full
        · rw [zero]
          exact trans _ _ _ (skips value member) below

/-- A quotient is the same over more values exactly when there are no more or the sum is zero. -/
private theorem quotient_eq_iff (sum : Int) {count : Nat} (more : Nat) (some : count ≠ 0) :
    (sum : Rat) / ((count + more : Nat) : Rat) = sum / (count : Nat) ↔ more = 0 ∨ sum = 0 := by
  have left : ((count + more : Nat) : Rat) ≠ 0 := by exact_mod_cast (by omega : count + more ≠ 0)
  have right : ((count : Nat) : Rat) ≠ 0 := by exact_mod_cast some
  rw [div_eq_div_iff left right]
  have whole : (sum : Rat) * (count : Nat) = sum * ((count + more : Nat) : Rat) ↔
      sum * (more : Int) = 0 := by
    push_cast
    constructor
    · intro same
      have cross : (sum : Rat) * more = 0 := by linarith
      exact_mod_cast cross
    · intro zero
      have cross : (sum : Rat) * more = 0 := by exact_mod_cast zero
      linarith
  rw [whole, mul_eq_zero, Int.natCast_eq_zero]
  exact or_comm

/-- Reading fields without a number as zeros keeps the aggregate exactly when there are none or
zeros are neutral. -/
theorem result_zeroed_iff {fields : List (Option Int)} {strict lax : Aggregate}
    (skips : strict.Holds (numbers fields)) (reads : lax.Holds (zeroed fields)) (op : AggOp) :
    lax.result op = strict.result op ↔ none ∉ fields ∨ Neutral (numbers fields) op := by
  have counts := length_zeroed fields
  rw [← skips.count, ← reads.count] at counts
  have full : fields.count none = 0 ↔ none ∉ fields := List.count_eq_zero
  by_cases empty : numbers fields = []
  · have nothing : strict.count = 0 := by simp [skips.count, empty]
    have neutral : ¬ Neutral (numbers fields) op := by
      cases op <;> simp [Neutral, empty]
    have absent : strict.result op = none := by simp [Aggregate.result, nothing]
    rw [absent, ← full]
    by_cases more : fields.count none = 0
    · have none : lax.count = 0 := by omega
      simp [Aggregate.result, none, more]
    · have some : lax.count ≠ 0 := by omega
      simp only [Aggregate.result, if_neg some, more, neutral, or_self, iff_false]
      cases op <;> simp
  · have filled : strict.count ≠ 0 := by simpa [skips.count] using empty
    have present : lax.count ≠ 0 := by omega
    have read : zeroed fields ≠ [] := by
      have length := reads.count
      intro nil
      rw [nil] at length
      exact present length
    obtain ⟨least, inLeast, minimum, below⟩ := skips.min empty
    obtain ⟨greatest, inGreatest, maximum, above⟩ := skips.max empty
    obtain ⟨low, inLow, laxMinimum, laxBelow⟩ := reads.min read
    obtain ⟨high, inHigh, laxMaximum, laxAbove⟩ := reads.max read
    simp only [Aggregate.result, if_neg filled, if_neg present]
    cases op with
    | sum => simp [skips.sum, reads.sum, sum_zeroed, Neutral, empty]
    | avg =>
      have quotients := quotient_eq_iff (numbers fields).sum (fields.count none) filled
      simp only [skips.sum, reads.sum, sum_zeroed, Binary64.quotient, counts, Neutral, empty,
        Option.some.injEq, Binary64.finite.injEq, quotients, full, ne_eq, not_false_eq_true,
        true_and]
    | min =>
      have minima := extreme_zeroed_iff (· ≤ ·) (fun _ _ _ => Int.le_trans)
        (fun _ _ => Int.le_antisymm) inLeast below inLow laxBelow
      simpa [minimum, laxMinimum, Neutral] using minima
    | max =>
      have maxima := extreme_zeroed_iff (· ≥ ·) (fun _ _ _ => ge_trans)
        (fun _ _ => ge_antisymm) inGreatest above inHigh laxAbove
      simpa [maximum, laxMaximum, Neutral] using maxima

section Modes

variable (regexec : CStr → Option (Nat → Int × Int)) (names : List CStr) (cjson : CJson)
  (printItem : Item → Option CStr) (filter : Option Filter) (aggFieldIdx : Nat) (aggField : CStr)

/-- A line for regex mode and one for JSON Lines mode that pass the filter with the same field:
the integer that is given, or a text that starts with no number. -/
def SameField (raw object : Bytes) (field : Option Int) : Prop :=
  ∃ text, regexField regexec names filter aggFieldIdx raw = some text ∧
    logFilterMatchJsonl cjson printItem (trimLine object) filter = some true ∧
    match field with
    | some number =>
      strtod text.bytes = some (.finite number) ∧ |number| ≤ 2 ^ 53 - 1 ∧
        getItem cjson (trimLine object) aggField = some (.number (.finite number))
    | none =>
      strtod text.bytes = none ∧ getItem cjson (trimLine object) aggField = some (.string text)

variable {regexec names cjson printItem filter aggFieldIdx aggField}

/-- A text without a number counts as zero in regex mode. -/
theorem regexValue_text {line : Bytes} {text : CStr}
    (field : regexField regexec names filter aggFieldIdx line = some text)
    (without : strtod text.bytes = none) :
    regexValue regexec names filter aggFieldIdx line = some (.finite 0) := by
  rw [regexValue, field, Option.map_some, atof, without, Option.getD_none]

/-- A text does not count in JSON Lines mode. -/
theorem jsonlValue_text {line : Bytes} {text : CStr}
    (passes : logFilterMatchJsonl cjson printItem (trimLine line) filter = some true)
    (field : getItem cjson (trimLine line) aggField = some (.string text)) :
    jsonlValue cjson printItem filter aggField line = none := by
  simp [jsonlValue, passes, jsonlGetInt64, field]

/-- An integer in the exact range counts as itself in JSON Lines mode. -/
theorem jsonlValue_number {line : Bytes} {number : Int} (small : |number| ≤ 2 ^ 53 - 1)
    (passes : logFilterMatchJsonl cjson printItem (trimLine line) filter = some true)
    (field : getItem cjson (trimLine line) aggField = some (.number (.finite number))) :
    jsonlValue cjson printItem filter aggField line = some (.finite number) := by
  have bound := abs_le.mp small
  have got := jsonlGetInt64_number (by omega) field
  have word : (Int64.ofInt number).toInt = number :=
    Int64.toInt_ofInt_of_le (by omega) (by omega)
  have exact : Binary64.nearest number = .finite number := Binary64.nearest_intCast (by omega)
  simp [jsonlValue, passes, got, word, exact]

/-- What both modes read from the same field. -/
theorem SameField.values {raw object : Bytes} {field : Option Int}
    (same : SameField regexec names cjson printItem filter aggFieldIdx aggField raw object
      field) :
    regexValue regexec names filter aggFieldIdx raw =
        some (.finite ((field.getD 0 : Int) : Rat)) ∧
      jsonlValue cjson printItem filter aggField object =
        field.map fun (number : Int) => .finite (number : Rat) := by
  obtain ⟨text, captured, passes, held⟩ := same
  cases field with
  | none =>
    refine ⟨?_, jsonlValue_text passes held.2⟩
    rw [regexValue_text captured held.1]
    simp
  | some number =>
    obtain ⟨spelled, small, item⟩ := held
    refine ⟨?_, jsonlValue_number small passes item⟩
    rw [regexValue, captured, Option.map_some, atof, spelled, Option.getD_some,
      Option.getD_some]

/-- What both modes read from lines with the same fields. -/
theorem values_same {records : List (Bytes × Bytes × Option Int)}
    (same : ∀ record ∈ records,
      SameField regexec names cjson printItem filter aggFieldIdx aggField record.1 record.2.1
        record.2.2) :
    (records.map fun record => record.1).filterMap
        (regexValue regexec names filter aggFieldIdx) =
        finites (zeroed (records.map fun record => record.2.2)) ∧
      (records.map fun record => record.2.1).filterMap
        (jsonlValue cjson printItem filter aggField) =
        finites (numbers (records.map fun record => record.2.2)) := by
  induction records with
  | nil => exact ⟨rfl, rfl⟩
  | cons record records ih =>
    have head := (same record List.mem_cons_self).values
    have rest := ih fun other member => same other (List.mem_cons_of_mem record member)
    constructor
    · rw [List.map_cons, List.filterMap_cons_some head.1, rest.1]
      rfl
    · rw [List.map_cons]
      cases field : record.2.2 with
      | none =>
        rw [field] at head
        rw [List.filterMap_cons_none head.2, rest.2]
        simp [numbers, field]
      | some number =>
        rw [field] at head
        rw [List.filterMap_cons_some head.2, rest.2]
        simp [numbers, finites, field]

/-- Fields among which there is one without a number. -/
def around (front back : List Int) : List (Option Int) :=
  front.map some ++ none :: back.map some

/-- Its numbers are the others. -/
theorem numbers_around (front back : List Int) : numbers (around front back) = front ++ back := by
  simp [numbers, around, List.filterMap_append, List.filterMap_map]

/-- They are read with a zero in between. -/
theorem zeroed_around (front back : List Int) : zeroed (around front back) = front ++ 0 :: back := by
  simp [zeroed, around, Function.comp_def]

/-- A text without a number changes no aggregate of JSON Lines mode. It leaves one of regex mode
as it is exactly when zeros do, and exactly then both modes agree on fields that include such a
text. -/
theorem texts_ignored_iff (captured : names.findIdx? (· = aggField) = some aggFieldIdx)
    (op : AggOp) :
    (∀ front back line text,
      logFilterMatchJsonl cjson printItem (trimLine line) filter = some true →
      getItem cjson (trimLine line) aggField = some (.string text) →
      logParseJsonlAggregate cjson printItem filter op aggField (front ++ line :: back) =
        logParseJsonlAggregate cjson printItem filter op aggField (front ++ back)) ∧
    (∀ front back line text values,
      regexField regexec names filter aggFieldIdx line = some text →
      strtod text.bytes = none →
      (front ++ back).filterMap (regexValue regexec names filter aggFieldIdx) = finites values →
      ExactSums values →
      (logParseRegexAggregate regexec names filter op aggField (front ++ line :: back) =
          logParseRegexAggregate regexec names filter op aggField (front ++ back) ↔
        Neutral values op)) ∧
    ∀ records : List (Bytes × Bytes × Option Int),
      (∀ record ∈ records, SameField regexec names cjson printItem filter aggFieldIdx aggField
        record.1 record.2.1 record.2.2) →
      ExactSums (numbers (records.map fun record => record.2.2)) →
      (logParseRegexAggregate regexec names filter op aggField
            (records.map fun record => record.1) =
          some (logParseJsonlAggregate cjson printItem filter op aggField
            (records.map fun record => record.2.1)) ↔
        (none ∉ records.map fun record => record.2.2) ∨
          Neutral (numbers (records.map fun record => record.2.2)) op) := by
  refine ⟨?_, ?_, ?_⟩
  · intro front back line text passes field
    rw [logParseJsonlAggregate, logParseJsonlAggregate, aggregate_eq, aggregate_eq,
      List.filterMap_append, List.filterMap_cons_none (jsonlValue_text passes field),
      List.filterMap_append]
  · intro front back line text values field without read exact
    rw [List.filterMap_append, finites] at read
    obtain ⟨first, second, whole, before, after⟩ := List.append_eq_map_iff.mp read
    have numbered := numbers_around first second
    rw [whole, ← numbered] at exact
    have decides := result_zeroed_iff (Aggregate.holds_foldl exact)
      (Aggregate.holds_foldl exact.zeroed) op
    have missing : none ∈ around first second := by simp [around]
    have inserted : (front ++ line :: back).filterMap
        (regexValue regexec names filter aggFieldIdx) = finites (zeroed (around first second)) := by
      rw [List.filterMap_append, List.filterMap_cons_some (regexValue_text field without),
        ← before, ← after, zeroed_around, finites, List.map_append, List.map_cons]
      simp
    have original : (front ++ back).filterMap
        (regexValue regexec names filter aggFieldIdx) = finites (numbers (around first second)) := by
      rw [List.filterMap_append, ← before, ← after, numbered, finites, List.map_append]
    rw [logParseRegexAggregate, logParseRegexAggregate, captured, Option.map_some,
      Option.map_some, Option.some_inj, aggregate_eq, aggregate_eq, inserted, original, decides,
      numbered, whole]
    simp [missing]
  · intro records same exact
    have read := values_same same
    have decides := result_zeroed_iff (Aggregate.holds_foldl exact)
      (Aggregate.holds_foldl exact.zeroed) op
    rw [logParseRegexAggregate, logParseJsonlAggregate, captured, Option.map_some,
      Option.some_inj, aggregate_eq, aggregate_eq, read.1, read.2, decides]

end Modes

/-- A pattern whose first group is the whole line. -/
def wholeLine (line : CStr) : Option (Nat → Int × Int) := some fun _ => (0, line.bytes.length)

/-- The one captured field. -/
def durField : List CStr := [.ofBytes (ascii "dur")]

/-- A line with a number and one without. -/
def fiveLine : Bytes := ascii "5\n"

/-- A line whose field starts with no number. -/
def textLine : Bytes := ascii "abc\n"

/-- The captured number. -/
theorem regexField_fiveLine :
    regexField wholeLine durField none 0 fiveLine = some (.ofBytes (ascii "5")) := by
  decide +kernel

/-- The captured text. -/
theorem regexField_textLine :
    regexField wholeLine durField none 0 textLine = some (.ofBytes (ascii "abc")) := by
  decide +kernel

/-- The text starts with no number. -/
theorem strtod_abc : strtod (ascii "abc") = none := by
  decide +kernel

/-- The number is read as itself. -/
theorem strtod_five : strtod (ascii "5") = some (.finite (5 : Int)) := by
  have shape : splitSign ((ascii "5").dropWhile isSpace) = (false, ascii "5") := by decide
  have five := strtod_integer shape (by decide) (by decide +kernel)
  have value : readDigits (ascii "5") 0 = 5 := by decide +kernel
  have exact : Binary64.nearest ((5 : Int) : Rat) = .finite (5 : Int) :=
    Binary64.nearest_intCast (by norm_num)
  rw [five, value]
  exact congrArg some exact

/-- The value of the line with the number. -/
theorem regexValue_fiveLine : regexValue wholeLine durField none 0 fiveLine =
    some (.finite (5 : Int)) := by
  have bytes : (CStr.ofBytes (ascii "5")).bytes = ascii "5" := by decide
  rw [regexValue, regexField_fiveLine, Option.map_some, atof, bytes, strtod_five,
    Option.getD_some]

/-- The objects with the number and with the text. -/
def fiveObject : Bytes := ascii "\x7b\"dur\":5\x7d\n"

/-- The object with the text. -/
def textObject : Bytes := ascii "\x7b\"dur\":\"abc\"\x7d\n"

/-- A library that knows these two objects. -/
def durJson : CJson where
  parseWithOpts line :=
    if line = trimLine fiveObject then
      some (.object [(.ofBytes (ascii "dur"), .number (.finite (5 : Int)))], [])
    else if line = trimLine textObject then
      some (.object [(.ofBytes (ascii "dur"), .string (.ofBytes (ascii "abc")))], [])
    else none
  printString text := text

/-- The number in both modes. -/
theorem sameField_five : SameField wholeLine durField durJson (fun _ => none) none 0
    (.ofBytes (ascii "dur")) fiveLine fiveObject (some 5) := by
  have bytes : (CStr.ofBytes (ascii "5")).bytes = ascii "5" := by decide
  refine ⟨_, regexField_fiveLine, rfl, ?_, by norm_num, rfl⟩
  rw [bytes]
  exact strtod_five

/-- The text in both modes. -/
theorem sameField_text : SameField wholeLine durField durJson (fun _ => none) none 0
    (.ofBytes (ascii "dur")) textLine textObject none := by
  have bytes : (CStr.ofBytes (ascii "abc")).bytes = ascii "abc" := by decide
  refine ⟨_, regexField_textLine, rfl, ?_, rfl⟩
  rw [bytes]
  exact strtod_abc

/-- The sums of one small number. -/
theorem exactSums_five : ExactSums [5] := by
  intro first front
  have short := front.length_le
  match first, front with
  | [], _ => norm_num
  | [_], front =>
    have same := (List.cons_prefix_cons.mp front).1
    rw [same]
    norm_num
  | _ :: _ :: _, _ => simp at short

/-- The minimum over the line with the number, to which the line with the text comes in front. -/
theorem texts_ignored_iff_five :
    (logParseJsonlAggregate durJson (fun _ => none) none .min (.ofBytes (ascii "dur"))
          ([fiveObject] ++ textObject :: []) =
        logParseJsonlAggregate durJson (fun _ => none) none .min (.ofBytes (ascii "dur"))
          ([fiveObject] ++ [])) ∧
      (logParseRegexAggregate wholeLine durField none .min (.ofBytes (ascii "dur"))
            ([] ++ textLine :: [fiveLine]) =
          logParseRegexAggregate wholeLine durField none .min (.ofBytes (ascii "dur"))
            ([] ++ [fiveLine]) ↔
        Neutral [5] .min) ∧
      (logParseRegexAggregate wholeLine durField none .min (.ofBytes (ascii "dur"))
            [fiveLine, textLine] =
          some (logParseJsonlAggregate durJson (fun _ => none) none .min
            (.ofBytes (ascii "dur")) [fiveObject, textObject]) ↔
        none ∉ [some (5 : Int), none] ∨ Neutral [5] .min) := by
  have captured : durField.findIdx? (· = .ofBytes (ascii "dur")) = some 0 := by decide +kernel
  have bytes : (CStr.ofBytes (ascii "abc")).bytes = ascii "abc" := by decide
  have whole := @texts_ignored_iff wholeLine durField durJson (fun _ => none) none 0 _ captured
    .min
  refine ⟨whole.1 _ _ _ (.ofBytes (ascii "abc")) rfl rfl, ?_, ?_⟩
  · refine whole.2.1 _ _ _ _ [5] regexField_textLine (bytes.symm ▸ strtod_abc) ?_ exactSums_five
    simp [regexValue_fiveLine, finites]
  · refine whole.2.2 [(fiveLine, fiveObject, some 5), (textLine, textObject, none)] ?_
      exactSums_five
    intro record member
    rcases List.mem_cons.mp member with five | others
    · rw [five]
      exact sameField_five
    · rw [List.mem_singleton.mp others]
      exact sameField_text

/-- The smallest number of the one line is five; with the text behind it, zero is printed. -/
theorem text_counts_as_zero :
    regexField wholeLine durField none 0 textLine = some (.ofBytes (ascii "abc")) ∧
      strtod (ascii "abc") = none ∧
      logParseRegexAggregate wholeLine durField none .min (.ofBytes (ascii "dur"))
          ([fiveLine] ++ []) = some (some (.finite (5 : Int))) ∧
      logParseRegexAggregate wholeLine durField none .min (.ofBytes (ascii "dur"))
          ([fiveLine] ++ textLine :: []) = some (some (.finite 0)) := by
  have captured : durField.findIdx? (· = .ofBytes (ascii "dur")) = some 0 := by decide +kernel
  have bytes : (CStr.ofBytes (ascii "abc")).bytes = ascii "abc" := by decide
  have text := regexValue_text regexField_textLine (bytes.symm ▸ strtod_abc)
  have one : (aggregate (regexValue wholeLine durField none 0) [fiveLine]).result .min =
      some (.finite (5 : Int)) := by
    simp [aggregate, regexValue_fiveLine, Aggregate.take, Aggregate.start, Aggregate.result,
      Binary64.lt]
  have two : (aggregate (regexValue wholeLine durField none 0) [fiveLine, textLine]).result
      .min = some (.finite 0) := by
    simp [aggregate, regexValue_fiveLine, text, Aggregate.take, Aggregate.start,
      Aggregate.result, Binary64.lt]
  refine ⟨regexField_textLine, strtod_abc, ?_, ?_⟩
  · rw [logParseRegexAggregate, captured, Option.map_some]
    exact congrArg some one
  · rw [logParseRegexAggregate, captured, Option.map_some]
    exact congrArg some two

end StreamPipeline.Parse
