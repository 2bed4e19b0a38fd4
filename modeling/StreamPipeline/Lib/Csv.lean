import StreamPipeline.Lib.Runs

/-!
# Comma-separated values

The grammar of a file of records and a strict reader of it, over any alphabet. A field stands as
it is when all its symbols are text, and any field stands in quotes with its inner quotes doubled;
every record has at least one field and ends in a line feed. The reader takes one symbol at a
time and gives back the records of every text of the grammar.
-/

namespace StreamPipeline.Csv

/-- The symbols with a meaning, and the ones that may stand outside quotes. -/
structure Dialect (α : Type) where
  /-- The symbol between two fields. -/
  comma : α
  /-- The symbol around a quoted field. -/
  quote : α
  /-- The symbol at the end of a record. -/
  feed : α
  /-- The symbols of a field without quotes. -/
  isText : α → Bool
  /-- A comma ends no record. -/
  comma_ne_feed : comma ≠ feed
  /-- A quote separates no fields. -/
  quote_ne_comma : quote ≠ comma
  /-- A quote ends no record. -/
  quote_ne_feed : quote ≠ feed
  /-- A comma is no text. -/
  comma_special : isText comma = false
  /-- A quote is no text. -/
  quote_special : isText quote = false
  /-- A line feed is no text. -/
  feed_special : isText feed = false

variable {α : Type} [DecidableEq α]

namespace Dialect

variable (d : Dialect α)

/-! ## The grammar -/

/-- The inside of a quoted field: every quote twice. -/
def doubled (field : List α) : List α :=
  field.flatMap fun c => if c = d.quote then [c, c] else [c]

/-- A text is the token of a field. -/
inductive Token : List α → List α → Prop
  /-- A field of text. -/
  | plain {field : List α} (text : ∀ c ∈ field, d.isText c = true) : Token field field
  /-- Any field in quotes. -/
  | quoted (field : List α) : Token (d.quote :: (d.doubled field ++ [d.quote])) field

/-- A text is the line of a record. -/
inductive Line : List α → List (List α) → Prop
  /-- The last field. -/
  | last {token field : List α} (reads : d.Token token field) : Line (token ++ [d.feed]) [field]
  /-- A field before others. -/
  | cons {token field rest : List α} {record : List (List α)} (reads : d.Token token field)
      (later : Line rest record) : Line (token ++ d.comma :: rest) (field :: record)

/-- A text is the file of some records. -/
inductive File : List α → List (List (List α)) → Prop
  /-- No record. -/
  | nil : File [] []
  /-- A record before others. -/
  | cons {line rest : List α} {record : List (List α)} {records : List (List (List α))}
      (reads : d.Line line record) (later : File rest records) :
      File (line ++ rest) (record :: records)

end Dialect

/-! ## The reader -/

/-- Where the reader is. -/
inductive Place where
  /-- Before the first symbol of a field. -/
  | start
  /-- In a field without quotes. -/
  | plain
  /-- In a quoted field. -/
  | quoted
  /-- Behind a quote in a quoted field, the last one or the first of two. -/
  | closed
  deriving DecidableEq

/-- What was read: the records before, the fields of this record before, and this field. -/
structure Reader (α : Type) where
  /-- The records before. -/
  records : List (List (List α))
  /-- The fields before in this record. -/
  record : List (List α)
  /-- This field so far. -/
  field : List α
  /-- The place in this field. -/
  place : Place

namespace Reader

/-- A reader before the text. -/
def initial : Reader α := ⟨[], [], [], .start⟩

/-- A symbol of this field. -/
def keep (reader : Reader α) (c : α) (place : Place) : Reader α :=
  { reader with field := reader.field ++ [c], place }

/-- The field ends. -/
def endField (reader : Reader α) : Reader α :=
  ⟨reader.records, reader.record ++ [reader.field], [], .start⟩

/-- The field and the record end. -/
def endRecord (reader : Reader α) : Reader α :=
  ⟨reader.records ++ [reader.record ++ [reader.field]], [], [], .start⟩

/-- The text ends: the last record may do without its line feed, an open quote may not do without
the closing one. -/
def finish (reader : Reader α) : Option (List (List (List α))) :=
  match reader.place with
  | .quoted => none
  | .start => some (if reader.record = [] then reader.records else reader.endRecord.records)
  | .plain | .closed => some reader.endRecord.records

end Reader

namespace Dialect

variable (d : Dialect α)

/-- A symbol that ends the field; none for every other. -/
def ends (reader : Reader α) (c : α) : Option (Reader α) :=
  if c = d.comma then some reader.endField
  else if c = d.feed then some reader.endRecord
  else none

/-- A symbol of text. -/
def text (reader : Reader α) (c : α) : Option (Reader α) :=
  if d.isText c then some (reader.keep c .plain) else none

/-- One symbol; none when it may not stand there. -/
def step (reader : Reader α) (c : α) : Option (Reader α) :=
  match reader.place with
  | .start =>
    if c = d.quote then some { reader with place := .quoted }
    else (d.ends reader c).or (d.text reader c)
  | .plain => (d.ends reader c).or (d.text reader c)
  | .quoted =>
    some (if c = d.quote then { reader with place := .closed } else reader.keep c .quoted)
  | .closed => if c = d.quote then some (reader.keep c .quoted) else d.ends reader c

/-- The records of a text; none when it is malformed. -/
def read (text : List α) : Option (List (List (List α))) :=
  (Runs.run d.step .initial text).bind Reader.finish

variable {d}

/-- A comma ends the field outside quotes. -/
theorem step_comma {reader : Reader α} (outside : reader.place ≠ .quoted) :
    d.step reader d.comma = some reader.endField := by
  have other : d.comma ≠ d.quote := d.quote_ne_comma.symm
  cases place : reader.place with
  | quoted => contradiction
  | start | plain | closed => simp [step, place, ends, other]

/-- A line feed ends the record outside quotes. -/
theorem step_feed {reader : Reader α} (outside : reader.place ≠ .quoted) :
    d.step reader d.feed = some reader.endRecord := by
  have quote : d.feed ≠ d.quote := d.quote_ne_feed.symm
  have comma : d.feed ≠ d.comma := d.comma_ne_feed.symm
  cases place : reader.place with
  | quoted => contradiction
  | start | plain | closed => simp [step, place, ends, quote, comma]

/-- A symbol of text goes into a field without quotes. -/
theorem step_text {reader : Reader α} (bare : reader.place = .start ∨ reader.place = .plain)
    {c : α} (text : d.isText c = true) : d.step reader c = some (reader.keep c .plain) := by
  have quote : c ≠ d.quote := by
    rintro rfl
    exact Bool.false_ne_true (d.quote_special.symm.trans text)
  have comma : c ≠ d.comma := by
    rintro rfl
    exact Bool.false_ne_true (d.comma_special.symm.trans text)
  have feed : c ≠ d.feed := by
    rintro rfl
    exact Bool.false_ne_true (d.feed_special.symm.trans text)
  rcases bare with place | place <;> simp [step, place, ends, Dialect.text, quote, comma, feed, text]

/-! ## The reader on the grammar -/

/-- Symbols of text go into a field without quotes. -/
theorem run_text {reader : Reader α} (bare : reader.place = .start ∨ reader.place = .plain)
    {field : List α} (text : ∀ c ∈ field, d.isText c = true) :
    ∃ place, (place = .start ∨ place = .plain) ∧ Runs.run d.step reader field =
      some { reader with field := reader.field ++ field, place } := by
  induction field generalizing reader with
  | nil => exact ⟨reader.place, bare, by simp [Runs.run]⟩
  | cons c rest ih =>
    have here := step_text bare (text c List.mem_cons_self)
    have next : (reader.keep c .plain).place = .start ∨ (reader.keep c .plain).place = .plain :=
      .inr rfl
    obtain ⟨place, after, ran⟩ := ih next
      fun other member => text other (List.mem_cons_of_mem c member)
    refine ⟨place, after, ?_⟩
    rw [Runs.run, here]
    simpa [Reader.keep] using ran

/-- A field with its quotes doubled goes into a quoted field. -/
theorem run_doubled {reader : Reader α} (inside : reader.place = .quoted) (field : List α) :
    Runs.run d.step reader (d.doubled field) =
      some { reader with field := reader.field ++ field } := by
  induction field generalizing reader with
  | nil => simp [doubled, Runs.run]
  | cons c rest ih =>
    have kept : (reader.keep c .quoted).place = .quoted := rfl
    have later := ih kept
    have whole : d.doubled (c :: rest) =
        (if c = d.quote then [c, c] else [c]) ++ d.doubled rest := rfl
    have here : Runs.run d.step reader (if c = d.quote then [c, c] else [c]) =
        some (reader.keep c .quoted) := by
      split
      · rename_i quote
        simp [Runs.run, step, inside, quote, Reader.keep]
      · rename_i other
        simp [Runs.run, step, inside, other]
    rw [whole, Runs.run_append here, later]
    simp [Reader.keep, inside]

/-- A token puts its field, and leaves the reader outside quotes. -/
theorem run_token {token field : List α} (reads : d.Token token field)
    (records : List (List (List α))) (record : List (List α)) :
    ∃ place, place ≠ .quoted ∧ Runs.run d.step ⟨records, record, [], .start⟩ token =
      some ⟨records, record, field, place⟩ := by
  cases reads with
  | plain text =>
    have fresh : (⟨records, record, [], .start⟩ : Reader α).place = .start := rfl
    obtain ⟨place, bare, ran⟩ := run_text (.inl fresh) text
    refine ⟨place, ?_, ran⟩
    rcases bare with rfl | rfl <;> decide
  | quoted =>
    refine ⟨.closed, by decide, ?_⟩
    have opened : d.step ⟨records, record, [], .start⟩ d.quote =
        some ⟨records, record, [], .quoted⟩ := by simp [step]
    have place : (⟨records, record, [], .quoted⟩ : Reader α).place = .quoted := rfl
    have inside := run_doubled (d := d) place field
    rw [Runs.run, opened]
    dsimp only
    rw [Runs.run_append inside]
    simp [Runs.run, step]

/-- A line puts its record, behind the fields read before. -/
theorem run_line {line : List α} {record : List (List α)} (reads : d.Line line record)
    (records : List (List (List α))) (before : List (List α)) :
    Runs.run d.step ⟨records, before, [], .start⟩ line =
      some ⟨records ++ [before ++ record], [], [], .start⟩ := by
  induction reads generalizing before with
  | last reads =>
    obtain ⟨place, outside, ran⟩ := run_token reads records before
    rw [Runs.run_append ran, Runs.run, step_feed outside]
    rfl
  | @cons token field rest record reads later ih =>
    obtain ⟨place, outside, ran⟩ := run_token reads records before
    rw [Runs.run_append ran, Runs.run, step_comma outside]
    simpa [Reader.endField] using ih (before ++ [field])

/-- A file puts its records. -/
theorem run_file {text : List α} {added : List (List (List α))} (reads : d.File text added)
    (records : List (List (List α))) :
    Runs.run d.step ⟨records, [], [], .start⟩ text =
      some ⟨records ++ added, [], [], .start⟩ := by
  induction reads generalizing records with
  | nil => simp [Runs.run]
  | @cons line rest record added reads later ih =>
    rw [Runs.run_append (run_line reads records []), ih]
    simp

/-- The records of a file are read back. -/
theorem read_file {text : List α} {records : List (List (List α))}
    (reads : d.File text records) : d.read text = some records := by
  have ran := run_file reads []
  rw [read, Reader.initial, ran]
  rfl

end Dialect

end StreamPipeline.Csv
