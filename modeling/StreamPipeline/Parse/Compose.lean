import StreamPipeline.Parse.Applet

/-!
# Stages of `log_parse`

`log_parse` reads what another `log_parse` prints. A line it prints is trimmed already and comes
back as it is, so filters one behind the other keep exactly the lines all of them match, in
whatever order and however often they stand.
-/

namespace StreamPipeline.Parse

open Codec
open Json (itemsText)

/-! ## Trimmed lines -/

/-- A line without white space at its ends and without a line feed. -/
structure Trimmed (text : CStr) : Prop where
  front : text.bytes.dropWhile isSpace = text.bytes
  back : text.bytes.rdropWhile isSpace = text.bytes
  inner : lf ∉ text.bytes

/-- A part from the start of a text that starts without white space does so too. -/
theorem dropWhile_of_prefix {part text : Bytes} (inside : part <+: text)
    (front : text.dropWhile isSpace = text) : part.dropWhile isSpace = part := by
  obtain ⟨rest, rfl⟩ := inside
  rw [List.dropWhile_eq_self_iff] at front ⊢
  intro filled
  have longer : 0 < (part ++ rest).length := by
    rw [List.length_append]
    omega
  have first := front longer
  rwa [List.getElem_append_left filled] at first

/-- A part of a line without white space at its end has no line feed. -/
theorem lf_notMem_part {stdin line part : Bytes} (member : line ∈ lines stdin)
    (inside : part <:+: line) (back : part.rdropWhile isSpace = part) : lf ∉ part := by
  intro feed
  have ⟨body, inner, shape⟩ := line_of_mem member
  rcases shape with rfl | rfl
  · obtain ⟨before, after, whole⟩ := inside
    rcases List.eq_nil_or_concat after with rfl | ⟨front, last, rfl⟩
    · have filled : part ≠ [] := List.ne_nil_of_mem feed
      have ending := List.rdropWhile_eq_self_iff.mp back filled
      have last : part.getLast filled = lf := by
        have ends := congrArg List.getLast? whole
        rw [List.append_nil, List.getLast?_append_of_ne_nil _ filled, List.getLast?_concat,
          List.getLast?_eq_some_getLast filled] at ends
        exact Option.some.inj ends
      rw [last] at ending
      exact ending (by decide)
    · rw [List.concat_eq_append, ← List.append_assoc] at whole
      have same := List.append_inj_left' whole rfl
      rw [← same] at inner
      simp [feed] at inner
  · exact inner (inside.subset feed)

/-- What is left of a line is trimmed. -/
theorem trimmed_trimLine {stdin line : Bytes} (member : line ∈ lines stdin) :
    Trimmed (trimLine line) := by
  have shape : (trimLine line).bytes =
      ((CStr.ofBytes line).bytes.dropWhile isSpace).rdropWhile isSpace := rfl
  have start := List.dropWhile_idempotent isSpace (CStr.ofBytes line).bytes
  have sub : (CStr.ofBytes line).bytes.dropWhile isSpace <:+: line :=
    (List.dropWhile_suffix isSpace).isInfix.trans (List.takeWhile_prefix _).isInfix
  have first : (trimLine line).bytes <+: (CStr.ofBytes line).bytes.dropWhile isSpace :=
    shape ▸ List.rdropWhile_prefix isSpace _
  have back : (trimLine line).bytes.rdropWhile isSpace = (trimLine line).bytes :=
    shape ▸ List.rdropWhile_idempotent isSpace _
  exact {
    front := dropWhile_of_prefix first start
    back
    inner := lf_notMem_part member (first.isInfix.trans sub) back }

/-- A trimmed line comes back from the line it is printed as. -/
theorem trimLine_printed {text : CStr} (trimmed : Trimmed text) :
    trimLine (text.bytes ++ [lf]) = text := by
  have feed : isSpace lf = true := by decide
  have whole : (CStr.ofBytes (text.bytes ++ [lf])).bytes = text.bytes ++ [lf] := by
    apply CStr.bytes_ofBytes
    rw [List.mem_append, not_or]
    exact ⟨text.nulFree, by decide⟩
  apply CStr.ext
  show ((CStr.ofBytes (text.bytes ++ [lf])).bytes.dropWhile isSpace).rdropWhile isSpace = _
  rw [whole]
  cases bytes : text.bytes with
  | nil => rfl
  | cons first rest =>
    have front := trimmed.front
    have back := trimmed.back
    rw [bytes] at front back
    have kept : ¬ isSpace first = true := by
      intro space
      rw [List.dropWhile_cons_of_pos space] at front
      have shorter := (List.dropWhile_suffix (l := rest) isSpace).length_le
      rw [front, List.length_cons] at shorter
      omega
    rw [List.cons_append, List.dropWhile_cons_of_neg kept, ← List.cons_append,
      List.rdropWhile_concat_pos _ _ _ feed, back]

/-! ## Filters one behind the other -/

section Stages

variable (cjson : CJson) (printItem : Item → Option CStr)

/-- A trimmed line is an object that passes the filter. -/
def Passes (filter : Option Filter) (line : CStr) : Prop :=
  logFilterMatchJsonl cjson printItem line filter = some true

instance (filter : Option Filter) (line : CStr) : Decidable (Passes cjson printItem filter line) :=
  inferInstanceAs (Decidable (_ = _))

/-- The objects kept are the trimmed lines that pass. -/
theorem jsonlObjects_eq (filter : Option Filter) (stdin : Bytes) :
    jsonlObjects cjson printItem filter stdin =
      ((lines stdin).map trimLine).filter (Passes cjson printItem filter) := by
  rw [jsonlObjects]
  induction lines stdin with
  | nil => rfl
  | cons line input ih =>
    rw [List.filterMap_cons, List.map_cons, ih, jsonlObject]
    by_cases pass : logFilterMatchJsonl cjson printItem (trimLine line) filter = some true
    · have kept : Passes cjson printItem filter (trimLine line) := pass
      rw [List.filter_cons_of_pos (by simpa using kept), pass]
    · have lost : ¬ Passes cjson printItem filter (trimLine line) := pass
      rw [List.filter_cons_of_neg (by simpa using lost)]
      split
      · rfl
      · rename_i found
        split at found
        · contradiction
        · contradiction

/-- The lines of some texts, as `puts` prints them. -/
def printed (texts : List CStr) : Bytes := texts.flatMap fun text => text.bytes ++ [lf]

/-- Trimmed texts are printed as one line each. -/
theorem lines_printed {texts : List CStr} (trimmed : ∀ text ∈ texts, Trimmed text) :
    lines (printed texts) = texts.map fun text => text.bytes ++ [lf] := by
  have joined : printed texts = joinLines (texts.map CStr.bytes) := by
    rw [printed, joinLines, List.flatMap_map]
  have each : ∀ line ∈ texts.map CStr.bytes, lf ∉ line := by
    intro line member
    obtain ⟨text, inside, same⟩ := List.mem_map.mp member
    rw [← same]
    exact (trimmed text inside).inner
  rw [joined, lines_joinLines each, List.map_map]
  rfl

/-- Trimmed lines that are printed are read back as they are. -/
theorem trimLine_lines_printed {texts : List CStr} (trimmed : ∀ text ∈ texts, Trimmed text) :
    (lines (printed texts)).map trimLine = texts := by
  rw [lines_printed trimmed, List.map_map]
  calc texts.map (trimLine ∘ fun text => text.bytes ++ [lf])
    _ = texts.map id := List.map_congr_left fun text member => trimLine_printed (trimmed text member)
    _ = texts := List.map_id texts

/-- Standard output of a run of `log_parse` for each filter, each reading what the one before it
prints. -/
def stages (filters : List (Option Filter)) (stdin : Bytes) : Bytes :=
  filters.foldl (fun input filter => logParseJsonl cjson printItem filter input) stdin

/-- One stage prints the trimmed lines that pass. -/
theorem logParseJsonl_eq (filter : Option Filter) (stdin : Bytes) :
    logParseJsonl cjson printItem filter stdin =
      printed (((lines stdin).map trimLine).filter (Passes cjson printItem filter)) := by
  rw [← logParseObjects_false, logParseObjects_eq, if_neg (by decide), jsonlObjects_eq, printed]

/-- Stages over trimmed lines keep the ones that pass all filters. -/
theorem stages_printed (filters : List (Option Filter)) {texts : List CStr}
    (trimmed : ∀ text ∈ texts, Trimmed text) :
    stages cjson printItem filters (printed texts) =
      printed (texts.filter fun text => ∀ filter ∈ filters, Passes cjson printItem filter text) := by
  induction filters generalizing texts with
  | nil => simp [stages]
  | cons filter filters ih =>
    have kept : ∀ text ∈ texts.filter (Passes cjson printItem filter), Trimmed text :=
      fun text member => trimmed text (List.mem_of_mem_filter member)
    rw [stages, List.foldl_cons, logParseJsonl_eq, trimLine_lines_printed trimmed, ← stages, ih kept,
      List.filter_filter]
    congr 2
    funext text
    simp [Bool.and_comm]

/-- Stages keep the trimmed lines that pass all filters. -/
theorem stages_eq (filter : Option Filter) (filters : List (Option Filter)) (stdin : Bytes) :
    stages cjson printItem (filter :: filters) stdin =
      printed (((lines stdin).map trimLine).filter fun text =>
        ∀ other ∈ filter :: filters, Passes cjson printItem other text) := by
  have trimmed : ∀ text ∈ ((lines stdin).map trimLine).filter (Passes cjson printItem filter),
      Trimmed text := by
    intro text member
    have ⟨line, inside, same⟩ := List.mem_map.mp (List.mem_of_mem_filter member)
    rw [← same]
    exact trimmed_trimLine inside
  rw [stages, List.foldl_cons, logParseJsonl_eq, ← stages, stages_printed cjson printItem filters trimmed,
    List.filter_filter]
  congr 2
  funext text
  simp [Bool.and_comm]

/-- What stages print depends on which filters they have. -/
theorem stages_congr {filters others : List (Option Filter)}
    (same : ∀ filter, filter ∈ filters ↔ filter ∈ others) (stdin : Bytes) :
    stages cjson printItem filters stdin = stages cjson printItem others stdin := by
  cases filters with
  | nil =>
    have none : others = [] := List.eq_nil_iff_forall_not_mem.mpr fun filter member =>
      List.not_mem_nil ((same filter).mpr member)
    rw [none]
  | cons filter filters =>
    cases others with
    | nil => exact absurd ((same filter).mp List.mem_cons_self) List.not_mem_nil
    | cons other others =>
      rw [stages_eq, stages_eq]
      simp only [same]

/-- There are as many lines as texts. -/
theorem length_lines_printed {texts : List CStr} (trimmed : ∀ text ∈ texts, Trimmed text) :
    (lines (printed texts)).length = texts.length := by
  have restored := congrArg List.length (trimLine_lines_printed trimmed)
  rwa [List.length_map] at restored

/-- Objects that are kept are trimmed. -/
theorem trimmed_jsonlObjects (filter : Option Filter) (stdin : Bytes) :
    ∀ text ∈ jsonlObjects cjson printItem filter stdin, Trimmed text := by
  intro text member
  rw [jsonlObjects_eq] at member
  have ⟨line, inside, same⟩ := List.mem_map.mp (List.mem_of_mem_filter member)
  rw [← same]
  exact trimmed_trimLine inside

/-- For every JSON library, every input and any filters: runs of `log_parse` one behind the other
print the same whenever the same filters are among them, in any order and any number, and one
more run that counts prints the number of lines it would have printed. -/
theorem stages_same (filters others : List (Option Filter))
    (same : ∀ filter, filter ∈ filters ↔ filter ∈ others) (stdin : Bytes) :
    stages cjson printItem filters stdin = stages cjson printItem others stdin ∧
      ∀ filter, logParseObjects cjson printItem filter true (stages cjson printItem filters stdin) =
        digits (lines (stages cjson printItem (filter :: others) stdin)).length ++ [lf] := by
  constructor
  · exact stages_congr cjson printItem same stdin
  · intro filter
    have last : stages cjson printItem (filter :: others) stdin =
        logParseJsonl cjson printItem filter (stages cjson printItem filters stdin) := by
      have moved : ∀ one, one ∈ filter :: others ↔ one ∈ filters ++ [filter] := by
        intro one
        rw [List.mem_cons, List.mem_append, List.mem_singleton, same one, or_comm]
      rw [stages_congr cjson printItem moved, stages, List.foldl_append, ← stages]
      rfl
    rw [last, logParseObjects_eq, if_pos rfl, logParseJsonl_eq, ← jsonlObjects_eq,
      length_lines_printed (trimmed_jsonlObjects cjson printItem filter _)]

end Stages

/-! ## Captured records behind a filter -/

section Records

variable {cjson : CJson} {strtod : Bytes → Double}

/-- The object `log_output_emit_json` prints on a line. -/
def recordObject (cjson : CJson) (log : Log) : CStr where
  bytes := 123 :: (itemsText (log.fields.map (fieldText cjson)) ++ [125])
  nulFree := by
    intro member
    have whole := zero_notMem_emitted cjson log
    have opens : ascii "\x7b" = [123] := by decide
    have closes : ascii "\x7d\n" = [125, 10] := by decide
    rw [logOutputEmitJson, opens, closes] at whole
    simp_all

/-- A record is printed as its object and a line feed. -/
theorem logOutputEmitJson_eq (cjson : CJson) (log : Log) :
    logOutputEmitJson cjson log = (recordObject cjson log).bytes ++ [lf] := by
  have opens : ascii "\x7b" = [123] := by decide
  have closes : ascii "\x7d\n" = [125, 10] := by decide
  simp [logOutputEmitJson, opens, closes, recordObject]

/-- A printed string has no line feed. -/
theorem lf_notMem_printString (exact : cjson.Exact strtod) (text : CStr) :
    lf ∉ (cjson.printString text).bytes := by
  have ⟨inside, decoded, shape, read⟩ := exact.prints text
  rw [shape, List.mem_cons, not_or]
  constructor
  · decide
  · intro member
    have large := Json.printable_of_readString read lf member
    exact absurd large (by decide)

/-- The object is a trimmed line. -/
theorem trimmed_recordObject (exact : cjson.Exact strtod) (log : Log) :
    Trimmed (recordObject cjson log) := by
  have opens : ¬ isSpace 123 = true := by decide
  have closes : ¬ isSpace 125 = true := by decide
  constructor
  · exact List.dropWhile_cons_of_neg opens
  · exact List.rdropWhile_concat_neg isSpace (123 :: itemsText (log.fields.map (fieldText cjson)))
      125 closes
  · intro feed
    rw [recordObject, List.mem_cons, List.mem_append, List.mem_singleton] at feed
    rcases feed with first | inside | last
    · contradiction
    · rcases Json.mem_itemsText inside with comma | ⟨token, printed, deep⟩
      · contradiction
      · have ⟨field, _, same⟩ := List.mem_map.mp printed
        have colon : lf ∉ ascii ":" := by decide
        rw [← same, fieldText, List.mem_append, List.mem_append] at deep
        rcases deep with (name | separator) | value
        · exact lf_notMem_printString exact field.1 name
        · exact colon separator
        · exact lf_notMem_printString exact field.2 value
    · contradiction

/-- The object is read back as the captured strings. -/
theorem parseObject_recordObject (faithful : cjson.Faithful strtod) (log : Log) :
    parseObject cjson (recordObject cjson log) = some (itemsOfLog log) :=
  parseObject_record faithful log rfl List.dropWhile_nil

/-- The object of a record passes the filter when the record does, the operator compares texts and
the captured text fits the buffer. -/
theorem passes_recordObject_iff (faithful : cjson.Faithful strtod)
    (printItem : Item → Option CStr) (log : Log) (filter : Filter) :
    Passes cjson printItem (some filter) (recordObject cjson log) ↔
      logFilterMatchFields log (some filter) = true ∧ filter.op ≠ .greaterThan ∧
        ∀ value ∈ logGet log filter.key, value.bytes.length < 1024 := by
  rw [Passes, logFilterMatchJsonl_record (parseObject_recordObject faithful log)]
  by_cases textual : filter.op = .greaterThan
  · simp [textual]
  · rw [logFilterMatchFields_iff log textual]
    cases logGet log filter.key with
    | none => simp
    | some value => simp [textual, and_comm]

/-- Fewer texts are no longer than more of them. -/
theorem length_flatMap_filter_le {α : Type} {kept wanted : α → Bool} (text : α → Bytes)
    {input : List α} (fewer : ∀ one ∈ input, kept one = true → wanted one = true) :
    ((input.filter kept).flatMap text).length ≤ ((input.filter wanted).flatMap text).length := by
  induction input with
  | nil => exact Nat.le_refl 0
  | cons one input ih =>
    have later := ih fun other member => fewer other (List.mem_cons_of_mem one member)
    have here := fewer one List.mem_cons_self
    rw [List.filter_cons, List.filter_cons]
    cases first : kept one with
    | true =>
      rw [here first, if_pos rfl, if_pos rfl, List.flatMap_cons, List.flatMap_cons,
        List.length_append, List.length_append]
      omega
    | false =>
      rw [if_neg (by decide)]
      cases wanted one with
      | true =>
        rw [if_pos rfl, List.flatMap_cons, List.length_append]
        omega
      | false => rwa [if_neg (by decide)]

/-- Fewer texts are the same text only if none is missing. -/
theorem flatMap_filter_eq_iff {α : Type} {kept wanted : α → Bool} {text : α → Bytes}
    (filled : ∀ one, text one ≠ []) {input : List α}
    (fewer : ∀ one ∈ input, kept one = true → wanted one = true) :
    (input.filter kept).flatMap text = (input.filter wanted).flatMap text ↔
      ∀ one ∈ input, wanted one = true → kept one = true := by
  induction input with
  | nil => simp
  | cons one input ih =>
    have rest : ∀ other ∈ input, kept other = true → wanted other = true :=
      fun other member => fewer other (List.mem_cons_of_mem one member)
    have here := fewer one List.mem_cons_self
    have bound := length_flatMap_filter_le text rest
    rw [List.forall_mem_cons, List.filter_cons, List.filter_cons]
    cases first : kept one with
    | true =>
      rw [here first, if_pos rfl, if_pos rfl, List.flatMap_cons, List.flatMap_cons,
        List.append_right_inj, ih rest]
      simp
    | false =>
      rw [if_neg (by decide)]
      cases second : wanted one with
      | true =>
        have longer := List.length_pos_of_ne_nil (filled one)
        rw [if_pos rfl, List.flatMap_cons]
        constructor
        · intro same
          have lengths := congrArg List.length same
          rw [List.length_append] at lengths
          omega
        · intro missing
          exact absurd (missing.1 rfl) (by decide)
      | false =>
        rw [if_neg (by decide), ih rest]
        simp

/-- A filter drops records from those kept without one. -/
theorem regexRecords_filter (regexec : Regex) (names : List CStr) (filter : Option Filter)
    (stdin : Bytes) :
    regexRecords regexec names filter stdin =
      (regexRecords regexec names none stdin).filter fun log => logFilterMatchFields log filter := by
  rw [regexRecords, regexRecords]
  induction lines stdin with
  | nil => rfl
  | cons line input ih =>
    rw [List.filterMap_cons, List.filterMap_cons, ih, regexRecord, regexRecord]
    cases logRegexParseLine regexec names (trimLine line) with
    | none => rfl
    | some log =>
      have all : logFilterMatchFields log none = true := rfl
      rw [Option.bind_some, Option.bind_some, if_pos all]
      by_cases pass : logFilterMatchFields log filter = true
      · rw [if_pos pass]
        exact (@List.filter_cons_of_pos _ (logFilterMatchFields · filter) log _ pass).symm
      · rw [if_neg pass]
        exact (@List.filter_cons_of_neg _ (logFilterMatchFields · filter) log _ pass).symm

/-- For every JSON library that reads back what it prints, every regular expression, field list,
filter and input: filtering the JSON lines of regex mode in a second `log_parse` prints the same
as giving regex mode the filter exactly when no record that passes there is compared with `>` or
has a text of 1024 bytes or more in that field. -/
theorem piped_filter_iff (faithful : cjson.Faithful strtod) (printItem : Item → Option CStr)
    (regexec : Regex) (names : List CStr) (filter : Filter) (stdin : Bytes) :
    logParseJsonl cjson printItem (some filter)
        (logParseRegex cjson regexec names none .json stdin) =
      logParseRegex cjson regexec names (some filter) .json stdin ↔
    ∀ log ∈ regexRecords regexec names (some filter) stdin,
      filter.op ≠ .greaterThan ∧ ∀ value ∈ logGet log filter.key, value.bytes.length < 1024 := by
  have passes := passes_recordObject_iff faithful printItem
  have text : recordText cjson .json = fun log => (recordObject cjson log).bytes ++ [lf] :=
    funext (logOutputEmitJson_eq cjson)
  have format : (OutputFormat.json = .count) = False := by simp
  rw [logParseRegex_eq, logParseRegex_eq, regexRecords_filter _ _ (some filter), text]
  simp only [format, if_false]
  generalize regexRecords regexec names none stdin = records
  have trimmed : ∀ text ∈ records.map (recordObject cjson), Trimmed text := by
    intro text member
    have ⟨log, _, same⟩ := List.mem_map.mp member
    exact same ▸ trimmed_recordObject faithful.toExact log
  have piped : records.flatMap (fun log => (recordObject cjson log).bytes ++ [lf]) =
      printed (records.map (recordObject cjson)) := by
    rw [printed, List.flatMap_map]
  rw [piped, logParseJsonl_eq, trimLine_lines_printed trimmed, List.filter_map, printed,
    List.flatMap_map, flatMap_filter_eq_iff (fun log => by simp)]
  · simp only [List.mem_filter, Function.comp_apply, decide_eq_true_eq, passes]
    constructor
    · rintro all log ⟨member, pass⟩
      exact (all log member pass).2
    · intro all log member pass
      exact ⟨pass, all log ⟨member, pass⟩⟩
  · intro log _ kept
    exact ((passes log filter).mp (of_decide_eq_true kept)).1

end Records

/-- Both clips of two lines, each with a message. -/
def twoObjects : Bytes :=
  ascii "\x7b\"type\":\"clip\",\"msg\":\"a\"\x7d\n \x7b\"type\":\"clip\",\"msg\":\"b\"\x7d"

/-- Two filters in both orders, one of them twice. -/
theorem stages_same_twoFilters :
    stages sampleJson (fun _ => none) [some clipFilter, some containsFilter, some clipFilter]
        twoObjects =
      stages sampleJson (fun _ => none) [some containsFilter, some clipFilter] twoObjects ∧
    ∀ filter, logParseObjects sampleJson (fun _ => none) filter true
        (stages sampleJson (fun _ => none) [some clipFilter, some containsFilter, some clipFilter]
          twoObjects) =
      digits (lines (stages sampleJson (fun _ => none)
        (filter :: [some containsFilter, some clipFilter]) twoObjects)).length ++ [lf] :=
  stages_same sampleJson (fun _ => none) _ _ (by simp) twoObjects

/-- A captured number behind `>`. -/
theorem piped_filter_iff_five :
    logParseJsonl sampleJson (fun _ => none) (some ⟨.ofBytes (ascii "dur"), .ofBytes (ascii "4"),
          .greaterThan⟩)
        (logParseRegex sampleJson wholeLine durField none .json fiveLine) =
      logParseRegex sampleJson wholeLine durField (some ⟨.ofBytes (ascii "dur"),
        .ofBytes (ascii "4"), .greaterThan⟩) .json fiveLine ↔
    ∀ log ∈ regexRecords wholeLine durField (some ⟨.ofBytes (ascii "dur"), .ofBytes (ascii "4"),
        .greaterThan⟩) fiveLine,
      FilterOperator.greaterThan ≠ .greaterThan ∧
        ∀ value ∈ logGet log (.ofBytes (ascii "dur")), value.bytes.length < 1024 :=
  piped_filter_iff sampleJson_faithful (fun _ => none) wholeLine durField _ fiveLine

example : logParseRegex sampleJson wholeLine durField none .json (fiveLine ++ textLine) =
    ascii "\x7b\"dur\":\"5\"\x7d\n\x7b\"dur\":\"abc\"\x7d\n" := by decide +kernel

end StreamPipeline.Parse
