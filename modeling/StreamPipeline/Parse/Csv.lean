import StreamPipeline.Lib.Csv
import StreamPipeline.Lib.JsonTokens
import StreamPipeline.Parse.Filter

/-!
# CSV output

`log_parse` prints a record as one line of comma-separated values. A value with a comma, a quote,
a carriage return or a line feed is quoted; every other value is printed as it is. A strict reader
with line feeds as record ends gives back every record, whatever bytes its values hold.
-/

namespace StreamPipeline.Parse

open Json (itemsText)

/-- The test of `append_csv_field` for quotes. -/
def needsQuotes (s : CStr) : Bool :=
  s.bytes.contains 44 || s.bytes.contains 34 || s.bytes.contains lf || s.bytes.contains cr

/-- `append_csv_field`: the bytes it appends. -/
def appendCsvField (s : CStr) : Bytes :=
  if !needsQuotes s then s.bytes
  else 34 :: ((s.bytes.flatMap fun p => if p = 34 then [34, p] else [p]) ++ [34])

/-- The buffer of `log_output_emit_csv` at the end. -/
def csvBuffer (log : Log) : Bytes :=
  itemsText (log.fields.map fun field => appendCsvField field.2) ++ [lf]

/-- `log_output_emit_csv`: what `fputs` prints of the buffer. -/
def logOutputEmitCsv (log : Log) : Bytes := (CStr.ofBytes (csvBuffer log)).bytes

/-- Comma-separated values with line feeds as record ends; every byte but the four that need
quotes is text. -/
def rfc4180 : Csv.Dialect UInt8 where
  comma := 44
  quote := 34
  feed := lf
  isText byte := byte ≠ 44 ∧ byte ≠ 34 ∧ byte ≠ lf ∧ byte ≠ cr
  comma_ne_feed := by decide
  quote_ne_comma := by decide
  quote_ne_feed := by decide
  comma_special := by decide
  quote_special := by decide
  feed_special := by decide

/-- A value without quotes around it is text. -/
theorem isText_of_not_needsQuotes {s : CStr} (bare : needsQuotes s = false) :
    ∀ byte ∈ s.bytes, rfc4180.isText byte = true := by
  simp only [needsQuotes, Bool.or_eq_false_iff, List.contains_eq_mem, decide_eq_false_iff_not]
    at bare
  obtain ⟨⟨⟨comma, quote⟩, feed⟩, carriage⟩ := bare
  intro byte member
  simp only [rfc4180, decide_eq_true_eq]
  refine ⟨?_, ?_, ?_, ?_⟩ <;> rintro rfl <;> contradiction

/-- A printed value is a token of it. -/
theorem appendCsvField_token (s : CStr) : rfc4180.Token (appendCsvField s) s.bytes := by
  unfold appendCsvField
  cases quote : needsQuotes s with
  | false => exact .plain (isText_of_not_needsQuotes quote)
  | true =>
    have inside : (s.bytes.flatMap fun p => if p = 34 then [34, p] else [p]) =
        rfc4180.doubled s.bytes := by
      apply List.flatMap_congr
      intro byte _
      show _ = if byte = 34 then [byte, byte] else [byte]
      split
      · rename_i same
        rw [same]
      · rfl
    rw [inside]
    exact .quoted s.bytes

/-- A printed value holds no terminator. -/
theorem zero_notMem_csvField (s : CStr) : 0 ∉ appendCsvField s := by
  have live := s.nulFree
  unfold appendCsvField
  split
  · exact live
  · simp only [List.mem_cons, List.mem_append, List.mem_flatMap, List.not_mem_nil, or_false,
      not_or, not_exists, not_and]
    refine ⟨by decide, ?_, by decide⟩
    intro byte member
    have other : byte ≠ 0 := by
      rintro rfl
      exact live member
    split <;> simp [Ne.symm other]

/-- The whole buffer is printed. -/
theorem logOutputEmitCsv_eq (log : Log) : logOutputEmitCsv log = csvBuffer log := by
  apply CStr.bytes_ofBytes
  have feed : (0 : UInt8) ∉ [lf] := by decide
  rw [csvBuffer, List.mem_append, not_or]
  refine ⟨?_, feed⟩
  intro member
  rcases Json.mem_itemsText member with comma | ⟨token, printed, inside⟩
  · contradiction
  · obtain ⟨field, -, rfl⟩ := List.mem_map.mp printed
    exact zero_notMem_csvField field.2 inside

/-- Values with commas between them and a line feed behind them are the line of a record. -/
theorem csvLine {values : List CStr} (filled : values ≠ []) :
    rfc4180.Line (itemsText (values.map appendCsvField) ++ [lf])
      (values.map fun value => value.bytes) := by
  induction values with
  | nil => contradiction
  | cons value rest ih =>
    cases rest with
    | nil => exact .last (appendCsvField_token value)
    | cons next rest =>
      have later := ih (List.cons_ne_nil next rest)
      have text : itemsText ((value :: next :: rest).map appendCsvField) ++ [lf] =
          appendCsvField value ++
            rfc4180.comma :: (itemsText ((next :: rest).map appendCsvField) ++ [lf]) := by
        simp [itemsText, rfc4180]
      rw [text]
      exact .cons (appendCsvField_token value) later

/-- Printed records are a file of them. -/
theorem csvFile {logs : List Log} (filled : ∀ log ∈ logs, log.fields ≠ []) :
    rfc4180.File (logs.flatMap logOutputEmitCsv)
      (logs.map fun log => log.fields.map fun field => field.2.bytes) := by
  induction logs with
  | nil => exact .nil
  | cons log rest ih =>
    have here := filled log List.mem_cons_self
    have values : log.fields.map Prod.snd ≠ [] := fun none => here (List.map_eq_nil_iff.mp none)
    have line := csvLine values
    rw [List.map_map, List.map_map] at line
    have later := ih fun other member => filled other (List.mem_cons_of_mem log member)
    rw [List.flatMap_cons, logOutputEmitCsv_eq]
    exact .cons line later

/-- The reader gives back exactly the values of the printed records, in order. -/
theorem csv_round_trip (logs : List Log) (filled : ∀ log ∈ logs, log.fields ≠ []) :
    rfc4180.read (logs.flatMap logOutputEmitCsv) =
      some (logs.map fun log => log.fields.map fun field => field.2.bytes) :=
  Csv.Dialect.read_file (csvFile filled)

/-- Two records with special bytes, a quote inside and an empty value. -/
def specialLogs : List Log :=
  [⟨[(.ofBytes (ascii "msg"), .ofBytes (ascii "alpha,\"beta\"\r\n")),
      (.ofBytes (ascii "note"), .ofBytes (ascii " "))]⟩,
    ⟨[(.ofBytes (ascii "msg"), .empty)]⟩]

/-- Two records printed and read back. -/
theorem csv_round_trip_special :
    rfc4180.read (specialLogs.flatMap logOutputEmitCsv) =
      some (specialLogs.map fun log => log.fields.map fun field => field.2.bytes) :=
  csv_round_trip specialLogs (by decide)

example : specialLogs.flatMap logOutputEmitCsv =
    ascii "\"alpha,\"\"beta\"\"\r\n\", \n\n" := by decide

end StreamPipeline.Parse
