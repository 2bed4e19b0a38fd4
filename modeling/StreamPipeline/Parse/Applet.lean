import StreamPipeline.Lib.Getopt
import StreamPipeline.Parse.Aggregate
import StreamPipeline.Parse.Agree
import StreamPipeline.Parse.Csv
import StreamPipeline.Parse.Fields
import StreamPipeline.Parse.Main

/-!
# The applet `log_parse`

The arguments decide between two ways to read a line: a regular expression with field names, or
JSON Lines. Either way the records that pass the filter are printed, counted or taken into an
aggregate. The regular expression itself is compiled by the C library.
-/

namespace StreamPipeline.Parse

open Codec Getopt

/-- The values of `long_options` and `-E`. -/
inductive ParseOption where
  /-- `'r'`. -/
  | regex
  /-- `'e'`. -/
  | fields
  /-- `'f'`. -/
  | filter
  /-- `1000`. -/
  | format
  /-- `1001` to `1004`. -/
  | aggregate (op : AggOp)
  /-- `'E'`. -/
  | extended
  /-- `'h'`. -/
  | help
  deriving DecidableEq

/-- `"r:e:f:hE"` and `long_options`. -/
def parseTable : Table ParseOption where
  short letter :=
    if letter = 114 then some (true, .regex)
    else if letter = 101 then some (true, .fields)
    else if letter = 102 then some (true, .filter)
    else if letter = 104 then some (false, .help)
    else if letter = 69 then some (false, .extended)
    else none
  long := [
    ⟨ascii "regex", true, .regex⟩, ⟨ascii "fields", true, .fields⟩,
    ⟨ascii "filter", true, .filter⟩, ⟨ascii "format", true, .format⟩,
    ⟨ascii "sum", true, .aggregate .sum⟩, ⟨ascii "avg", true, .aggregate .avg⟩,
    ⟨ascii "min", true, .aggregate .min⟩, ⟨ascii "max", true, .aggregate .max⟩,
    ⟨ascii "help", false, .help⟩]

/-- `log_output_format_t`. -/
inductive OutputFormat where
  /-- `LOG_OUTPUT_JSON`. -/
  | json
  /-- `LOG_OUTPUT_CSV`. -/
  | csv
  /-- `LOG_OUTPUT_COUNT`. -/
  | count
  deriving DecidableEq

/-- `parse_format`; the format stays as it is without an argument. -/
def parseFormat : Option CStr → Option OutputFormat
  | none => some .json
  | some arg =>
    if arg.bytes = ascii "json" then some .json
    else if arg.bytes = ascii "csv" then some .csv
    else if arg.bytes = ascii "count" then some .count
    else none

/-- The variables of the argument loop. -/
structure Arguments where
  /-- `regex_pattern`. -/
  regexPattern : Option CStr := none
  /-- `fields_arg`. -/
  fieldsArg : Option CStr := none
  /-- `filter`; absent while its key is `NULL`. -/
  filter : Option Filter := none
  /-- `format_arg`. -/
  formatArg : Option CStr := none
  /-- `agg_op` and `agg_field`; absent while `has_agg` is `0`. -/
  agg : Option (AggOp × CStr) := none

/-- One turn of the argument loop. -/
def Arguments.take (args : Arguments) (given : Given ParseOption) : Except Nat Arguments :=
  match given.val with
  | .regex => .ok { args with regexPattern := given.optarg }
  | .fields => .ok { args with fieldsArg := given.optarg }
  | .filter =>
    match given.optarg.bind logFilterParse with
    | none => .error 1
    | some filter => .ok { args with filter := some filter }
  | .format => .ok { args with formatArg := given.optarg }
  | .aggregate op => .ok { args with agg := given.optarg.map fun field => (op, field) }
  | .extended => .ok args
  | .help => .error 0

/-- The argument loop of `log_parse_main`; operands are not looked at. -/
def parseArguments (args : List CStr) : Except Nat Arguments :=
  (parseTable.scan args).loop Arguments.take 1 {}

/-- A compiled regular expression: where `regexec` finds the groups of a line. -/
abbrev Regex := CStr → Option (Nat → Int × Int)

/-- How the records of a run are made and what is done with them. -/
inductive Task where
  /-- Captured fields are printed or counted. -/
  | regex (regexec : Regex) (names : List CStr) (filter : Option Filter) (format : OutputFormat)
  /-- A captured field is aggregated. -/
  | regexAggregate (regexec : Regex) (names : List CStr) (filter : Option Filter) (op : AggOp)
    (aggField : CStr)
  /-- Objects are printed, or counted for `--format count`. -/
  | jsonl (filter : Option Filter) (count : Bool)
  /-- A field of the objects is aggregated. -/
  | jsonlAggregate (filter : Option Filter) (op : AggOp) (aggField : CStr)

/-- The names `--fields` gives, with enough memory; none when the list is refused. -/
def fieldNames (arg : CStr) : Option (List CStr) :=
  match logRegexSplitFields true true arg ⟨none, none, 0⟩ with
  | none => none
  | some run =>
    if run.status ≠ 0 ∨ run.log.count = 0 then none
    else run.fieldNames.map fun names => names.map fun name => .ofBytes (name.getD [])

/-- The checks of `log_parse_main` behind the argument loop; `regcomp` is the C library's. -/
def checkArguments (regcomp : CStr → Option Regex) (args : Arguments) : Except Nat Task :=
  match parseFormat args.formatArg with
  | none => .error 1
  | some format =>
    match args.regexPattern with
    | some pattern =>
      match args.fieldsArg.bind fieldNames, regcomp pattern with
      | some names, some regexec =>
        match args.agg with
        | none => .ok (.regex regexec names args.filter format)
        | some (op, aggField) =>
          if aggField ∈ names then .ok (.regexAggregate regexec names args.filter op aggField)
          else .error 1
      | _, _ => .error 1
    | none =>
      if args.fieldsArg.isSome ∨ args.formatArg.isSome ∧ format ≠ .count ∧ args.agg.isNone then
        .error 1
      else
        match args.agg with
        | none => .ok (.jsonl args.filter (format = .count))
        | some (op, aggField) => .ok (.jsonlAggregate args.filter op aggField)

/-! ## The loop over the lines -/

/-- What the loop has printed and counted. -/
structure Printing where
  /-- Standard output so far. -/
  printed : Bytes := []
  /-- `matched_count`. -/
  matchedCount : Nat := 0

/-- A record that passes the filter, in regex mode without an aggregate. -/
def Printing.record (cjson : CJson) (format : OutputFormat) (run : Printing) (log : Log) :
    Printing :=
  match format with
  | .json => { run with printed := run.printed ++ logOutputEmitJson cjson log }
  | .csv => { run with printed := run.printed ++ logOutputEmitCsv log }
  | .count => { run with matchedCount := run.matchedCount + 1 }

/-- A line that passes the filter, in JSON Lines mode without an aggregate. -/
def Printing.object (count : Bool) (run : Printing) (line : CStr) : Printing :=
  if count then { run with matchedCount := run.matchedCount + 1 }
  else { run with printed := run.printed ++ (line.bytes ++ [lf]) }

/-- `printf("%zu\n", matched_count)` at the end when counts are asked for. -/
def Printing.finish (count : Bool) (run : Printing) : Bytes :=
  if count then run.printed ++ (digits run.matchedCount ++ [lf]) else run.printed

/-- The record of a line in regex mode, when it passes the filter. -/
def regexRecord (regexec : Regex) (names : List CStr) (filter : Option Filter) (line : Bytes) :
    Option Log :=
  (logRegexParseLine regexec names (trimLine line)).bind fun log =>
    if logFilterMatchFields log filter then some log else none

/-- The object of a line in JSON Lines mode, when it passes the filter. -/
def jsonlObject (cjson : CJson) (printItem : Item → Option CStr) (filter : Option Filter)
    (line : Bytes) : Option CStr :=
  match logFilterMatchJsonl cjson printItem (trimLine line) filter with
  | some true => some (trimLine line)
  | _ => none

/-- `log_parse_main` in regex mode without an aggregate: what it prints. -/
def logParseRegex (cjson : CJson) (regexec : Regex) (names : List CStr) (filter : Option Filter)
    (format : OutputFormat) (stdin : Bytes) : Bytes :=
  ((lines stdin).foldl (fun (run : Printing) line =>
    (regexRecord regexec names filter line).elim run (run.record cjson format)) {}).finish
    (format = .count)

/-- `log_parse_main` in JSON Lines mode without an aggregate. -/
def logParseObjects (cjson : CJson) (printItem : Item → Option CStr) (filter : Option Filter)
    (count : Bool) (stdin : Bytes) : Bytes :=
  ((lines stdin).foldl (fun (run : Printing) line =>
    (jsonlObject cjson printItem filter line).elim run (run.object count)) {}).finish count

/-- The records regex mode keeps. -/
def regexRecords (regexec : Regex) (names : List CStr) (filter : Option Filter) (stdin : Bytes) :
    List Log :=
  (lines stdin).filterMap (regexRecord regexec names filter)

/-- The objects JSON Lines mode keeps. -/
def jsonlObjects (cjson : CJson) (printItem : Item → Option CStr) (filter : Option Filter)
    (stdin : Bytes) : List CStr :=
  (lines stdin).filterMap (jsonlObject cjson printItem filter)

/-- The text of a record in a format that prints it. -/
def recordText (cjson : CJson) : OutputFormat → Log → Bytes
  | .json, log => logOutputEmitJson cjson log
  | .csv, log => logOutputEmitCsv log
  | .count, _ => []

/-- A loop that does nothing for some lines is one over what the others give. -/
theorem foldl_elim {α β σ : Type} (f : α → Option β) (take : σ → β → σ) (input : List α)
    (start : σ) :
    input.foldl (fun run line => (f line).elim run (take run)) start =
      (input.filterMap f).foldl take start := by
  rw [List.foldl_filterMap]
  congr 1
  funext run line
  cases f line <;> rfl

/-- Regex mode prints the records it keeps, or their number. -/
theorem logParseRegex_eq (cjson : CJson) (regexec : Regex) (names : List CStr)
    (filter : Option Filter) (format : OutputFormat) (stdin : Bytes) :
    logParseRegex cjson regexec names filter format stdin =
      if format = .count then digits (regexRecords regexec names filter stdin).length ++ [lf]
      else (regexRecords regexec names filter stdin).flatMap (recordText cjson format) := by
  have run (records : List Log) (start : Printing) :
      (records.foldl (Printing.record cjson format) start) =
        ⟨start.printed ++ records.flatMap (recordText cjson format),
          start.matchedCount + if format = .count then records.length else 0⟩ := by
    induction records generalizing start with
    | nil => simp
    | cons log records ih =>
      rw [List.foldl_cons, ih]
      cases format <;> simp [Printing.record, recordText, Nat.add_assoc, Nat.add_comm 1]
  rw [logParseRegex, foldl_elim, ← regexRecords, run, Printing.finish]
  have silent : (regexRecords regexec names filter stdin).flatMap (recordText cjson .count) = [] := by
    simp [recordText]
  cases format <;> simp [silent]

/-- JSON Lines mode prints the objects it keeps, or their number. -/
theorem logParseObjects_eq (cjson : CJson) (printItem : Item → Option CStr)
    (filter : Option Filter) (count : Bool) (stdin : Bytes) :
    logParseObjects cjson printItem filter count stdin =
      if count then digits (jsonlObjects cjson printItem filter stdin).length ++ [lf]
      else (jsonlObjects cjson printItem filter stdin).flatMap fun line => line.bytes ++ [lf] := by
  have run (objects : List CStr) (start : Printing) :
      (objects.foldl (Printing.object count) start) =
        if count then { start with matchedCount := start.matchedCount + objects.length }
        else { start with
          printed := start.printed ++ objects.flatMap fun line => line.bytes ++ [lf] } := by
    induction objects generalizing start with
    | nil => simp
    | cons line objects ih =>
      rw [List.foldl_cons, ih]
      cases count <;> simp [Printing.object, Nat.add_assoc, Nat.add_comm 1]
  rw [logParseObjects, foldl_elim, ← jsonlObjects, run, Printing.finish]
  cases count <;> simp

/-- Without `--format count` this is the JSON Lines mode of the pipeline. -/
theorem logParseObjects_false (cjson : CJson) (printItem : Item → Option CStr)
    (filter : Option Filter) (stdin : Bytes) :
    logParseObjects cjson printItem filter false stdin =
      logParseJsonl cjson printItem filter stdin := by
  rw [logParseObjects_eq, logParseJsonl, jsonlObjects, if_neg (by decide)]
  induction lines stdin with
  | nil => rfl
  | cons line input ih =>
    rw [List.flatMap_cons, ← ih, List.filterMap_cons, jsonlObject]
    rcases logFilterMatchJsonl cjson printItem (trimLine line) filter with _ | matched
    · rfl
    · cases matched <;> rfl

end StreamPipeline.Parse
