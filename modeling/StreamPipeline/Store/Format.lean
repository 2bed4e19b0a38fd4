import StreamPipeline.Lib.Decimal
import StreamPipeline.Lib.Lines
import StreamPipeline.Store.Base64

/-!
# Database rows

One row is the line `key TAB value TAB expire_at LF`. A nonempty value is written compressed, in
base64 behind the mark `Z:`; the empty value is a tombstone. Every allocation the codec makes
can fail, and the parser reports a failed one with the code it uses for a malformed line. The
fault records name the failing calls; the compressor is a parameter.
-/

namespace StreamPipeline.Store

/-- One record: the strings of `row_t` and its expiration time. -/
structure Row where
  /-- `key`. -/
  key : CStr
  /-- `value`, empty for a tombstone. -/
  value : CStr
  /-- `expire_at`, in seconds; zero never expires. -/
  expireAt : Int64
  deriving DecidableEq

/-- `clip_row_is_expired`. -/
def Row.isExpired (row : Row) (now : Int64) : Bool := row.expireAt != 0 && row.expireAt ≤ now

/-- `clip_row_is_tombstone`. -/
def Row.isTombstone (row : Row) : Bool := row.value.bytes.isEmpty

/-- `row_is_live`. -/
def Row.isLive (row : Row) (now : Int64) : Bool :=
  if row.isTombstone then false else !row.isExpired now

/-- A row that is live later is live before. -/
theorem Row.isLive_mono {row : Row} {now later : Int64} (order : now ≤ later)
    (live : row.isLive later = true) : row.isLive now = true := by
  unfold isLive at live ⊢
  split at live
  · contradiction
  · rename_i kept
    rw [if_neg kept]
    simp only [isExpired, Bool.not_eq_true', Bool.and_eq_false_iff, decide_eq_false_iff_not]
      at live ⊢
    rcases live with never | shows
    · exact .inl never
    · exact .inr fun past => shows (Int64.le_trans past order)

/-! ## Compression -/

/-- The compressor: `mz_compress` into a buffer of `compressBound` bytes, and the plain text of
a complete stream. -/
structure Miniz where
  /-- The stream made from a plain text. -/
  compress : Bytes → Bytes
  /-- The plain text of a stream; none when the bytes are not one. -/
  plain : Bytes → Option Bytes

/-- Decompression undoes compression. -/
def Miniz.Lawful (miniz : Miniz) : Prop :=
  ∀ value, miniz.plain (miniz.compress value) = some value

/-- A compressor with the stream of one short text written out; any other text is stored behind
a byte that starts no stream. -/
def sampleMiniz : Miniz where
  compress plain :=
    if plain = ascii "v" then [0x78, 0x9c, 0x2b, 0x03, 0x00, 0x00, 0x77, 0x00, 0x77]
    else 0 :: plain
  plain
    | 0 :: plain => some plain
    | stream =>
      if stream = [0x78, 0x9c, 0x2b, 0x03, 0x00, 0x00, 0x77, 0x00, 0x77] then some (ascii "v")
      else none

/-- The written-out compressor undoes itself. -/
theorem sampleMiniz_lawful : sampleMiniz.Lawful := by
  intro value
  by_cases short : value = ascii "v"
  · rw [short]
    rfl
  · simp [sampleMiniz, short]

/-- The status of `uncompress`, with the bytes it wrote. -/
inductive Status where
  /-- `Z_OK`. -/
  | ok (plain : Bytes)
  /-- `Z_BUF_ERROR`. -/
  | bufError
  /-- Any other status. -/
  | failed

/-- `uncompress` into `capacity` bytes. -/
def Miniz.uncompress (miniz : Miniz) (capacity : Nat) (stream : Bytes) : Status :=
  match miniz.plain stream with
  | none => .failed
  | some plain => if plain.length ≤ capacity then .ok plain else .bufError

/-! ## Reading -/

/-- The allocations of one `parse_db_row` call that fail. -/
structure ParseFaults where
  /-- `malloc(b64_len + 1)`. -/
  comp : Bool
  /-- `malloc(uncomp_len)`. -/
  uncomp : Bool
  /-- The state `uncompress` allocates, by attempt. -/
  inflate : Nat → Bool
  /-- `realloc(uncomp, uncomp_len)`, by attempt. -/
  realloc : Nat → Bool

/-- No allocation fails. -/
def ParseFaults.none : ParseFaults := ⟨false, false, fun _ => false, fun _ => false⟩

/-- The decompression loop: the buffer doubles until the plain text fits. -/
def inflate (miniz : Miniz) (faults : ParseFaults) (comp : Bytes) (attempt capacity : Nat)
    (positive : 0 < capacity) : Option Bytes :=
  if faults.inflate attempt then none
  else
    match found : miniz.uncompress capacity comp with
    | .ok plain => some plain
    | .failed => none
    | .bufError =>
      if faults.realloc attempt then none
      else inflate miniz faults comp (attempt + 1) (capacity * 2) (by omega)
termination_by ((miniz.plain comp).getD []).length - capacity
decreasing_by
  unfold Miniz.uncompress at found
  split at found
  · contradiction
  · rename_i plain same
    rw [same, Option.getD_some]
    by_cases fits : plain.length ≤ capacity
    · simp [fits] at found
    · omega

/-- The text behind the mark, decoded and decompressed. -/
def decodeStream (miniz : Miniz) (faults : ParseFaults) (text : Bytes) : Option CStr :=
  if faults.comp then none
  else
    match Base64.decode 58 text (text.length + 1) with
    | none => none
    | some comp =>
      if faults.uncomp then none
      else (inflate miniz faults comp 0 (comp.length * 4 + 1024) (by omega)).map .ofBytes

/-- The value field as `parse_db_row` leaves it: decoded when it carries the mark. -/
def decodeValue (miniz : Miniz) (faults : ParseFaults) (value : Bytes) : Option CStr :=
  if (ascii "Z:").isPrefixOf value then decodeStream miniz faults (value.drop 2)
  else some (.ofBytes value)

/-- The split of a line at its first two tabs, when the rest is one integer. -/
def splitRow (line : Bytes) : Option (Bytes × Bytes × Int64) :=
  match cutAt tab line with
  | none => none
  | some (key, rest) =>
    match cutAt tab rest with
    | none => none
    | some (value, time) =>
      match strtol time with
      | none => none
      | some (expireAt, stop) => if stop ≠ [] then none else some (key, value, expireAt)

/-- `parse_db_row` on a line already cut at CR and LF; none is its `-1`. -/
def parseDbRow (miniz : Miniz) (faults : ParseFaults) (line : CStr) : Option Row :=
  match splitRow line.bytes with
  | none => none
  | some (key, value, expireAt) =>
    (decodeValue miniz faults value).map fun value => ⟨.ofBytes key, value, expireAt⟩

/-! ## Writing -/

/-- The calls of one `append_db_row` that fail. -/
structure AppendFaults where
  /-- `fseek(fp, 0, SEEK_END)`. -/
  seek : Bool
  /-- `malloc(comp_len)`. -/
  comp : Bool
  /-- The state `mz_compress` allocates. -/
  deflate : Bool
  /-- `malloc(b64_len + 3)`. -/
  b64 : Bool
  /-- `fprintf`. -/
  print : Bool
  deriving DecidableEq

/-- No call fails. -/
def AppendFaults.none : AppendFaults := ⟨false, false, false, false, false⟩

/-- `"%s\t%s\t%ld\n"`. -/
def rowLine (key field : Bytes) (expireAt : Int64) : Bytes :=
  key ++ tab :: (field ++ tab :: (decimal expireAt.toInt ++ [lf]))

/-- `append_db_row`: the line it prints at the end of the file; none is its `-1`. -/
def appendDbRow (miniz : Miniz) (faults : AppendFaults) (key value : CStr) (expireAt : Int64) :
    Option Bytes :=
  if faults.seek then none
  else if value.bytes.isEmpty then
    if faults.print then none else some (rowLine key.bytes [] expireAt)
  else if faults.comp || faults.deflate then none
  else
    let comp := miniz.compress value.bytes
    let b64Len := 4 * ((comp.length + 2) / 3) + 1
    if faults.b64 then none
    else
      match Base64.encode comp b64Len with
      | none => none
      | some b64 =>
        if faults.print then none else some (rowLine key.bytes (ascii "Z:" ++ b64) expireAt)

/-! ## Faults -/

/-- Without faults the loop ends with the plain text. -/
theorem inflate_none (miniz : Miniz) (comp : Bytes) (attempt capacity : Nat)
    (positive : 0 < capacity) :
    inflate miniz .none comp attempt capacity positive = miniz.plain comp := by
  fun_induction inflate miniz .none comp attempt capacity positive with
  | case1 attempt capacity positive failed => simp [ParseFaults.none] at failed
  | case2 attempt capacity positive _ plain found =>
    unfold Miniz.uncompress at found
    split at found
    · contradiction
    · split at found <;> simp_all
  | case3 attempt capacity positive _ found =>
    unfold Miniz.uncompress at found
    split at found
    · simp_all
    · split at found <;> contradiction
  | case4 attempt capacity positive _ found failed => simp [ParseFaults.none] at failed
  | case5 attempt capacity positive _ found _ ih => exact ih

/-- Without faults the value is the plain text of the stream. -/
theorem decodeStream_none (miniz : Miniz) (text : Bytes) :
    decodeStream miniz .none text =
      ((Base64.decode 58 text (text.length + 1)).bind miniz.plain).map .ofBytes := by
  unfold decodeStream
  simp only [inflate_none]
  cases Base64.decode 58 text (text.length + 1) <;> simp [ParseFaults.none]

/-! ## Round trip -/

/-- The field written for a value. -/
def valueField (miniz : Miniz) (value : CStr) : Bytes :=
  if value.bytes.isEmpty then []
  else
    let comp := miniz.compress value.bytes
    ascii "Z:" ++ (Base64.encode comp (4 * ((comp.length + 2) / 3) + 1)).getD []

/-- The encoding fits the buffer computed for it. -/
private theorem exists_encoded (comp : Bytes) :
    ∃ b64, Base64.encode comp (4 * ((comp.length + 2) / 3) + 1) = some b64 :=
  Base64.encode_isSome (Nat.lt_succ_self _)

/-- Without faults a row is always written. -/
theorem appendDbRow_none (miniz : Miniz) (key value : CStr) (expireAt : Int64) :
    appendDbRow miniz .none key value expireAt =
      some (rowLine key.bytes (valueField miniz value) expireAt) := by
  obtain ⟨b64, encoded⟩ := exists_encoded (miniz.compress value.bytes)
  by_cases empty : value.bytes = []
  · simp [appendDbRow, AppendFaults.none, valueField, empty]
  · simp [appendDbRow, AppendFaults.none, valueField, empty, encoded]

/-- A row is written whole or not at all. -/
theorem appendDbRow_faults {miniz : Miniz} {faults : AppendFaults} {key value : CStr}
    {expireAt : Int64} {line : Bytes}
    (written : appendDbRow miniz faults key value expireAt = some line) :
    line = rowLine key.bytes (valueField miniz value) expireAt := by
  obtain ⟨b64, encoded⟩ := exists_encoded (miniz.compress value.bytes)
  by_cases empty : value.bytes = []
  · simp_all [appendDbRow, valueField]
  · simp_all [appendDbRow, valueField]

/-- The field written for a value decodes to the value. -/
theorem decodeValue_valueField {miniz : Miniz} (lawful : miniz.Lawful) (value : CStr) :
    decodeValue miniz .none (valueField miniz value) = some value := by
  unfold valueField
  split
  · rename_i empty
    have same : value = .ofBytes [] := CStr.ext (by simpa [CStr.ofBytes] using empty)
    simp [decodeValue, same, ascii]
  · obtain ⟨b64, encoded⟩ := exists_encoded (miniz.compress value.bytes)
    have size := Base64.length_encode encoded
    have decoded : Base64.decode 58 b64 (b64.length + 1) = some (miniz.compress value.bytes) :=
      Base64.decode_encode (fun _ => by decide) encoded (by omega)
    have text : (ascii "Z:" ++ b64).drop 2 = b64 := rfl
    simp only [encoded, Option.getD_some]
    rw [decodeValue, if_pos (by simp), text, decodeStream_none, decoded, Option.bind_some, lawful]
    simp

/-- No small byte, a separator or a terminator among them, is in a written field. -/
theorem not_mem_valueField (miniz : Miniz) (value : CStr) {byte : UInt8} (small : byte < 43) :
    byte ∉ valueField miniz value := by
  obtain ⟨b64, encoded⟩ := exists_encoded (miniz.compress value.bytes)
  unfold valueField
  split
  · simp
  · simp only [encoded, Option.getD_some, List.mem_append, not_or]
    refine ⟨?_, Base64.not_mem_encode encoded small⟩
    rw [show ascii "Z:" = [90, 58] from rfl]
    rintro (_ | ⟨_, _ | ⟨_, ⟨⟩⟩⟩) <;> exact absurd small (by decide)

/-- A written line without its line feed splits into the fields it was made of. -/
theorem splitRow_fields {key field : Bytes} (keyTab : tab ∉ key) (fieldTab : tab ∉ field)
    (expireAt : Int64) :
    splitRow (key ++ tab :: (field ++ tab :: decimal expireAt.toInt)) =
      some (key, field, expireAt) := by
  simp [splitRow, cutAt_append keyTab, cutAt_append fieldTab, strtol_decimal_end]

/-- A key that neither splits fields nor ends lines. -/
def Clean (key : CStr) : Prop := tab ∉ key.bytes ∧ cr ∉ key.bytes ∧ lf ∉ key.bytes

instance (key : CStr) : Decidable (Clean key) := by
  unfold Clean
  infer_instance

/-- The text of a row before its line feed, as a string. -/
def rowText (miniz : Miniz) (key value : CStr) (expireAt : Int64) : CStr where
  bytes := key.bytes ++ tab :: (valueField miniz value ++ tab :: decimal expireAt.toInt)
  nulFree := by
    have field : 0 ∉ valueField miniz value := not_mem_valueField miniz value (by decide)
    have time : 0 ∉ decimal expireAt.toInt := not_mem_decimal _ (by decide)
    have separator : (0 : UInt8) ≠ tab := by decide
    simp [key.nulFree, field, time, separator]

/-- A written line is its text and a line feed. -/
theorem rowLine_eq (miniz : Miniz) (key value : CStr) (expireAt : Int64) :
    rowLine key.bytes (valueField miniz value) expireAt =
      (rowText miniz key value expireAt).bytes ++ [lf] := by
  simp [rowLine, rowText]

/-- Neither CR nor LF stands in a row text outside the key. -/
theorem not_mem_rowText (miniz : Miniz) {key : CStr} (value : CStr) (expireAt : Int64)
    {byte : UInt8} (small : byte < 43) (tabless : byte ≠ tab) (keyless : byte ∉ key.bytes) :
    byte ∉ (rowText miniz key value expireAt).bytes := by
  simp [rowText, keyless, tabless, not_mem_valueField miniz value small,
    not_mem_decimal _ small]

/-- A row written under a clean key is read back. -/
theorem parseDbRow_rowText {miniz : Miniz} (lawful : miniz.Lawful) {key : CStr}
    (keyTab : tab ∉ key.bytes) (value : CStr) (expireAt : Int64) :
    parseDbRow miniz .none (rowText miniz key value expireAt) = some ⟨key, value, expireAt⟩ := by
  have fieldTab : tab ∉ valueField miniz value := not_mem_valueField miniz value (by decide)
  have split := splitRow_fields keyTab fieldTab expireAt
  simp [parseDbRow, rowText, split, decodeValue_valueField lawful]

/-- A row written under a clean key is one line of text. -/
theorem lines_rowLine (miniz : Miniz) {key : CStr} (clean : Clean key) (value : CStr)
    (expireAt : Int64) :
    lines (rowLine key.bytes (valueField miniz value) expireAt) =
      [rowLine key.bytes (valueField miniz value) expireAt] := by
  have textLf := not_mem_rowText miniz value expireAt (by decide) (by decide) clean.2.2
  rw [rowLine_eq, lines_cons textLf []]
  rfl

/-- The line of a row written under a clean key, cut at CR and LF, is read back. -/
theorem parseDbRow_rowLine {miniz : Miniz} (lawful : miniz.Lawful) {key : CStr}
    (clean : Clean key) (value : CStr) (expireAt : Int64) :
    parseDbRow miniz .none (chomp (rowLine key.bytes (valueField miniz value) expireAt)) =
      some ⟨key, value, expireAt⟩ := by
  have textCr := not_mem_rowText miniz value expireAt (by decide) (by decide) clean.2.1
  have textLf := not_mem_rowText miniz value expireAt (by decide) (by decide) clean.2.2
  rw [rowLine_eq, chomp_snoc textCr textLf, parseDbRow_rowText lawful clean.1]

/-- A row is always written, and a written row is one line that reads back as the row; it is a
tombstone exactly when the value was empty. -/
theorem row_round_trip {miniz : Miniz} (lawful : miniz.Lawful) {key : CStr} (clean : Clean key)
    (value : CStr) (expireAt : Int64) :
    (∃ line, appendDbRow miniz .none key value expireAt = some line) ∧
      ∀ faults line, appendDbRow miniz faults key value expireAt = some line →
        lines line = [line] ∧
          ∃ row, parseDbRow miniz .none (chomp line) = some row ∧
            row.key = key ∧ row.value = value ∧ row.expireAt = expireAt ∧
            (row.isTombstone = true ↔ value.bytes = []) := by
  refine ⟨⟨_, appendDbRow_none miniz key value expireAt⟩, ?_⟩
  intro faults line written
  rw [appendDbRow_faults written]
  refine ⟨lines_rowLine miniz clean value expireAt, _,
    parseDbRow_rowLine lawful clean value expireAt, rfl, rfl, rfl, ?_⟩
  exact List.isEmpty_iff

/-- The earliest expiration survives the round trip. -/
theorem row_round_trip_earliest :
    (∃ line, appendDbRow sampleMiniz .none (.ofBytes (ascii "k")) (.ofBytes (ascii "v"))
        Int64.minValue = some line) ∧
      ∀ faults line, appendDbRow sampleMiniz faults (.ofBytes (ascii "k")) (.ofBytes (ascii "v"))
          Int64.minValue = some line →
        lines line = [line] ∧
          ∃ row, parseDbRow sampleMiniz .none (chomp line) = some row ∧
            row.key = .ofBytes (ascii "k") ∧ row.value = .ofBytes (ascii "v") ∧
            row.expireAt = Int64.minValue ∧
            (row.isTombstone = true ↔ (CStr.ofBytes (ascii "v")).bytes = []) :=
  row_round_trip sampleMiniz_lawful (by decide) _ _

end StreamPipeline.Store
