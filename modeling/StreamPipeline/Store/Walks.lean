import StreamPipeline.Store.Compact
import StreamPipeline.Store.Released

/-!
# Listing and compaction in memory

A listing and a compaction go over the used slots of the index and free it at the end. A compaction
compresses every live row into blocks of its own and writes through a stream on a descriptor, which
are closed once on every path.
-/

namespace StreamPipeline.Store.Memory

open Blocks Probing

/-- `row_is_live`. -/
def rowIsLive (row : RowFields) (now : Int64) : Prog Block Bool := do
  let value ← readStr row.value
  pure (Row.isLive ⟨.empty, value, row.expireAt⟩ now)

/-- The loop of `print_rows` over the rows from `i` on. -/
def printFrom (index : IndexFields) (start : Option CStr) (now : Int64) :
    Nat → Nat → Prog Block Bytes
  | 0, _ => pure []
  | left + 1, i => do
    if ← readUsed index i then
      let row ← readRow index i
      if ← rowIsLive row now then
        let key ← readStr row.key
        if start.all fun start => key.startsWith start then
          let value ← readStr row.value
          let later ← printFrom index start now left (i + 1)
          pure (printedRow key value ++ later)
        else printFrom index start now left (i + 1)
      else printFrom index start now left (i + 1)
    else printFrom index start now left (i + 1)

section Allocating

variable (fails : Nat → Bool) (junk : UInt8) (miniz : Miniz)

/-- `print_rows`: the status of `MODE_LIST` and `MODE_PREFIX`, and the output. -/
def printRows (reads : Nat → Bool) (start : Option CStr) (now : Int64) (content : Bytes) :
    Prog Block (Nat × Bytes) := do
  let loaded ← loadLatestRows fails junk miniz reads content
  if loaded.1 then
    let text ← printFrom loaded.2 start now loaded.2.cap 0
    rowIndexFree loaded.2
    pure (0, text)
  else
    rowIndexFree loaded.2
    pure (1, [])

/-- The field of `append_db_row` from what `base64_encode` gives: the line it prints, or none. -/
def printField (comp b64 key : Option Ptr) (print : Bool) (expireAt : Int64) :
    Option Bytes → Prog Block (Option Bytes)
  | none => do
    free comp
    free b64
    pure none
  | some text => do
    overwrite b64 (ascii "Z:" ++ text ++ [0])
    free comp
    let key ← readStr key
    let field ← readStr b64
    free b64
    pure (if print then none else some (rowLine key.bytes field.bytes expireAt))

/-- `append_db_row` from the stream on: a buffer for its text and the terminator. -/
def encodeField (comp key : Option Ptr) (print : Bool) (expireAt : Int64) (stream : Bytes) :
    Prog Block (Option Bytes) := do
  match ← malloc fails junk (4 * ((stream.length + 2) / 3) + 1 + 3) with
  | none => do
    free comp
    pure none
  | some b64 =>
    printField comp (some b64) key print expireAt
      (Base64.encode stream (4 * ((stream.length + 2) / 3) + 1))

/-- `append_db_row` on a value that is not empty; `compressBound` is room for every stream. -/
def compressField (key : Option Ptr) (print : Bool) (expireAt : Int64) (value : CStr) :
    Prog Block (Option Bytes) := do
  match ← alloc fails (.text (miniz.compress value.bytes)) with
  | none => pure none
  | some comp => do
    match ← alloc fails .handle with
    | none => do
      free (some comp)
      pure none
    | some state => do
      free (some state)
      encodeField fails junk (some comp) key print expireAt (miniz.compress value.bytes)

/-- `append_db_row`: the line it prints; none is its `-1`. -/
def appendDbRow (seek print : Bool) (row : RowFields) : Prog Block (Option Bytes) :=
  if seek then pure none
  else do
    let value ← readStr row.value
    if value.bytes.isEmpty then
      let key ← readStr row.key
      pure (if print then none else some (rowLine key.bytes [] row.expireAt))
    else compressField fails junk miniz row.key print row.expireAt value

/-- The calls of a compaction that fail without an allocation. -/
structure IoFaults where
  /-- `getline`, by line. -/
  reads : Nat → Bool
  /-- `open` of the temporary file. -/
  openTmp : Bool
  /-- `fdopen` of the temporary file. -/
  fdopen : Bool
  /-- `fseek`, by row. -/
  seek : Nat → Bool
  /-- `fprintf`, by row. -/
  print : Nat → Bool
  /-- `fflush`. -/
  flush : Bool
  /-- `fsync`. -/
  sync : Bool
  /-- `rename`. -/
  rename : Bool

/-- The loop of `db_rewrite_compact` over the rows from `i` on: the text it writes. -/
def writeFrom (io : IoFaults) (index : IndexFields) (now : Int64) :
    (left i number : Nat) → Prog Block (Option Bytes)
  | 0, _, _ => pure (some [])
  | left + 1, i, number => do
    if ← readUsed index i then
      let row ← readRow index i
      if ← rowIsLive row now then
        match ← appendDbRow fails junk miniz (io.seek number) (io.print number) row with
        | none => pure none
        | some line => do
          let later ← writeFrom io index now left (i + 1) (number + 1)
          pure (later.map (line ++ ·))
      else writeFrom io index now left (i + 1) number
    else writeFrom io index now left (i + 1) number

/-- `fclose` of the temporary file, which closes its descriptor as well. -/
def closeTmp (tmpFd tmpFp : Option Ptr) : Prog Block Unit := do
  free tmpFp
  free tmpFd

/-- `db_rewrite_compact` from the end of its loop on. -/
def finishCompact (io : IoFaults) (files : Files) (index : IndexFields)
    (tmpFd tmpFp : Option Ptr) : Option Bytes → Prog Block (Int × Files)
  | none => do
    closeTmp tmpFd tmpFp
    rowIndexFree index
    pure (-1, ⟨files.db, none⟩)
  | some text =>
    if io.flush || io.sync then do
      closeTmp tmpFd tmpFp
      rowIndexFree index
      pure (-1, ⟨files.db, none⟩)
    else do
      closeTmp tmpFd tmpFp
      rowIndexFree index
      if io.rename then pure (-1, ⟨files.db, none⟩)
      else pure (0, ⟨text, none⟩)

/-- `db_rewrite_compact` with a stream on the temporary file. -/
def compactInto (io : IoFaults) (now : Int64) (files : Files) (index : IndexFields)
    (tmpFd tmpFp : Option Ptr) : Prog Block (Int × Files) := do
  let text ← writeFrom fails junk miniz io index now index.cap 0 0
  finishCompact io files index tmpFd tmpFp text

/-- A descriptor or a stream, unless the call fails. -/
def openHandle (failed : Bool) : Prog Block (Option Ptr) :=
  if failed then pure none else alloc fails .handle

/-- `db_rewrite_compact` with a descriptor of the temporary file. -/
def compactFd (io : IoFaults) (now : Int64) (files : Files) (index : IndexFields)
    (tmpFd : Option Ptr) : Prog Block (Int × Files) := do
  match ← openHandle fails io.fdopen with
  | none => do
    free tmpFd
    rowIndexFree index
    pure (-1, ⟨files.db, none⟩)
  | some tmpFp => compactInto fails junk miniz io now files index tmpFd (some tmpFp)

/-- `db_rewrite_compact` from the temporary file on. -/
def compactTmp (io : IoFaults) (now : Int64) (files : Files) (index : IndexFields) :
    Prog Block (Int × Files) := do
  match ← openHandle (fun _ => false) io.openTmp with
  | none => do
    rowIndexFree index
    pure (-1, files)
  | some tmpFd => compactFd fails junk miniz io now files index (some tmpFd)

/-- `db_rewrite_compact` with its status. -/
def dbRewriteCompact (io : IoFaults) (dbPath : CStr) (now : Int64) (files : Files) :
    Prog Block (Int × Files) := do
  let loaded ← loadLatestRows fails junk miniz io.reads files.db
  if loaded.1 then
    if pathMax ≤ dbPath.bytes.length + 4 then
      rowIndexFree loaded.2
      pure (-1, files)
    else compactTmp fails junk miniz io now files loaded.2
  else
    rowIndexFree loaded.2
    pure (-1, files)

end Allocating

/-! ## Listing -/

/-- The rows of an index are those of its arrays. -/
theorem rowsIn_eq_rows {index : RowIndex} {slots : List (Option Slot)}
    (same : table slots = index.arrays.slots) : rowsIn slots = index.rows := by
  rw [rowsIn, same, RowIndex.arrays, RowIndex.rows]
  cases index.buckets <;> rfl

variable {own : Cells}

/-- An index has no slots, or the rows of its arrays. -/
theorem Stored.rows_cases {fields : IndexFields} {index : RowIndex}
    (stored : Stored fields own index.arrays) :
    (fields.cap = 0 ∧ index.rows = []) ∨
      ∃ (arrays : Arrays) (len : Nat), fields = arrays.fields len ∧
        own = arrays.blocks + strings arrays.slots ∧ rowsIn arrays.slots = index.rows := by
  generalize shape : index.arrays = arr at stored
  cases stored with
  | blank =>
    have empty : table [] = index.arrays.slots := by
      rw [shape]
      rfl
    exact .inl ⟨rfl, (rowsIn_eq_rows empty).symm⟩
  | placed arrays len =>
    have same : table arrays.slots = index.arrays.slots := by rw [shape]
    exact .inr ⟨arrays, len, rfl, rfl, rowsIn_eq_rows same⟩

/-- A row in memory is live when the row it stands for is. -/
theorem returns_rowIsLive {row : RowFields} {stands : Row}
    (value : Points own row.value stands.value) (expireAt : row.expireAt = stands.expireAt)
    (now : Int64) : Returns (rowIsLive row now) own (stands.isLive now) := by
  apply (returns_readStr value).bind
  rw [expireAt]
  exact .pure ⟨rfl, rfl⟩

/-- What a listing shows of some rows. -/
def listed (start : Option CStr) (now : Int64) (rows : List Row) : Bytes :=
  ((rows.filter fun row => row.isLive now).filter fun row =>
    start.all fun start => row.key.startsWith start).flatMap fun row => printedRow row.key row.value

/-- The loop of `print_rows` shows the rows from a slot on. -/
theorem Arrays.returns_printFrom (arrays : Arrays) (len : Nat)
    (part : arrays.blocks + strings arrays.slots ≤ own) (start : Option CStr) (now : Int64)
    {left i : Nat} (whole : i + left = arrays.slots.length) :
    Returns (printFrom (arrays.fields len) start now left i) own
      (listed start now (rowsIn (arrays.slots.drop i))) := by
  have blocks : arrays.blocks ≤ own := le_trans (Multiset.le_add_right _ _) part
  induction left generalizing i with
  | zero =>
    have done : arrays.slots.drop i = [] := List.drop_of_length_le (by omega)
    rw [done]
    exact .pure ⟨rfl, rfl⟩
  | succ left ih =>
    have inside : i < arrays.slots.length := by omega
    have place : arrays.slots[i]? = some arrays.slots[i] := List.getElem?_eq_getElem inside
    have later := ih (show i + 1 + left = _ by omega)
    rw [rowsIn_drop place]
    generalize arrays.slots[i] = slot at place
    apply (arrays.returns_readUsed len blocks place).bind
    cases slot with
    | none => exact later
    | some slot =>
      have strings : slot.cells ≤ own :=
        le_trans (cells_le_strings place) (le_trans (Multiset.le_add_left _ _) part)
      apply (arrays.returns_readRow len blocks place).bind
      apply (returns_rowIsLive (slot.points_value.mono strings) rfl now).bind
      show Returns _ own (listed start now (slot.row :: _))
      rw [listed]
      cases live : slot.row.isLive now with
      | false =>
        rw [List.filter_cons_of_neg (by simp [live])]
        exact later
      | true =>
        rw [List.filter_cons_of_pos (by simp [live]), if_pos rfl]
        apply (returns_readStr (slot.points_key.mono strings)).bind
        cases begins : start.all fun start => slot.row.key.startsWith start with
        | false =>
          rw [List.filter_cons_of_neg (by simp [begins])]
          exact later
        | true =>
          rw [List.filter_cons_of_pos (by simp [begins]), if_pos rfl]
          apply (returns_readStr (slot.points_value.mono strings)).bind
          apply later.bind
          exact .pure ⟨rfl, rfl⟩

/-- The loop of `print_rows` shows the rows of an index. -/
theorem returns_printFrom {fields : IndexFields} {index : RowIndex}
    (stored : Stored fields own index.arrays) (start : Option CStr) (now : Int64) :
    Returns (printFrom fields start now fields.cap 0) own (listed start now index.rows) := by
  rcases stored.rows_cases with ⟨empty, none⟩ | ⟨arrays, len, rfl, rfl, rows⟩
  · rw [empty, none]
    exact .pure ⟨rfl, rfl⟩
  · rw [← rows]
    exact arrays.returns_printFrom len (le_refl _) start now (Nat.zero_add _)

/-- The answer of a listing for what `load_latest_rows` gives. -/
def listing (start : Option CStr) (now : Int64) : Option RowIndex → Nat × Bytes
  | none => (1, [])
  | some index => (0, listed start now index.rows)

variable {fails : Nat → Bool} {junk : UInt8} {miniz : Miniz}

/-- A listing frees the index. -/
theorem meets_printRows {reads : Nat → Bool} {content : Bytes} (start : Option CStr) (now : Int64)
    (roomy : RoomyRows miniz (lines content)) :
    Meets (printRows fails junk miniz reads start now content) 0 fun result left => left = 0 ∧
      ∃ (silent : SilentFaults) (puts : Nat → PutFaults),
        ((∀ call, fails call = false) → silent = .none ∧ puts = fun _ => ⟨false, false⟩) ∧
        result = listing start now (Store.loadLatestRows miniz silent ⟨reads, puts⟩ content) := by
  apply (meets_loadLatestRows roomy).andThen
  rintro ⟨done, fields⟩ left ⟨silent, puts, arr, stored, calm, answer⟩
  cases loaded : Store.loadFrom miniz silent ⟨reads, puts⟩ 0 (lines content) .empty with
  | none =>
    rw [loaded] at answer
    rw [if_neg (Bool.eq_false_iff.mp answer)]
    apply (leaves_rowIndexFree stored).bind (add_zero _).symm
    refine .pure ⟨add_zero 0, silent, puts, calm, ?_⟩
    rw [Store.loadLatestRows, loaded]
    rfl
  | some index =>
    rw [loaded] at answer
    obtain ⟨finished, rfl⟩ := answer
    rw [if_pos finished]
    apply (returns_printFrom stored start now).bind
    apply (leaves_rowIndexFree stored).bind (add_zero _).symm
    refine .pure ⟨add_zero 0, silent, puts, calm, ?_⟩
    rw [Store.loadLatestRows, loaded]
    rfl

/-- A listing reads and writes inside its blocks only, frees each of them once whatever allocation
or read fails, and shows what the failing calls explain. -/
theorem printRows_releases (fails : Nat → Bool) (junk : UInt8) (miniz : Miniz) (reads : Nat → Bool)
    (start : Option CStr) (now : Int64) (content : Bytes)
    (roomy : RoomyRows miniz (lines content)) :
    ∃ (silent : SilentFaults) (puts : Nat → PutFaults) (after : Heap Block),
      printRows fails junk miniz reads start now content .empty =
        some (listing start now (Store.loadLatestRows miniz silent ⟨reads, puts⟩ content), after) ∧
      after.cells = [] ∧
      ((∀ call, fails call = false) → silent = .none ∧ puts = fun _ => ⟨false, false⟩) := by
  obtain ⟨result, left, after, ran, holds, rfl, silent, puts, calm, rfl⟩ :=
    (meets_printRows start now roomy).run
  exact ⟨silent, puts, after, ran, (Multiset.coe_eq_zero _).mp holds, calm⟩

/-- A listing of one row while its decompressor is not allocated. -/
theorem printRows_releases_compressed :
    ∃ (silent : SilentFaults) (puts : Nat → PutFaults) (after : Heap Block),
      printRows (fun call => call = 3) 0 sampleMiniz (fun _ => false) none 100 compressedRow
          .empty =
        some (listing none 100 (Store.loadLatestRows sampleMiniz silent ⟨fun _ => false, puts⟩
          compressedRow), after) ∧
      after.cells = [] ∧
      ((∀ call : Nat, decide (call = 3) = false) →
        silent = .none ∧ puts = fun _ => ⟨false, false⟩) :=
  printRows_releases _ _ _ _ _ _ _ roomyRows_compressedRow

/-! ## Writing a row -/

/-- What `append_db_row` prints when the allocations of a row fail or not. -/
def Appends (fails : Nat → Bool) (miniz : Miniz) (own : Cells) (seek print : Bool) (row : Row)
    (result : Option Bytes) (left : Cells) : Prop :=
  left = own ∧ ∃ starved : Bool, ((∀ call, fails call = false) → starved = false) ∧
    result = Store.appendDbRow miniz ⟨seek, starved, false, false, print⟩ row.key row.value
      row.expireAt

/-- A failing allocation for a value that is not empty. -/
theorem appends_starved {row : Row} (filled : row.value.bytes.isEmpty = false) (print : Bool)
    (failed : ∃ call, fails call = true) : Appends fails miniz own false print row none own := by
  obtain ⟨call, failed⟩ := failed
  refine ⟨rfl, true, fun quiet => ?_, by simp [Store.appendDbRow, filled]⟩
  rw [quiet call] at failed
  contradiction

/-- The text of a value is written to a buffer of its own, and every buffer is freed. -/
theorem meets_encodeField {key : Option Ptr} {row : Row} (points : Points own key row.key)
    (filled : row.value.bytes.isEmpty = false) (print : Bool) (comp : Nat) (content : Block) :
    Meets (encodeField fails junk (some ⟨comp, 0⟩) key print row.expireAt
        (miniz.compress row.value.bytes)) ({(comp, content)} + own)
      (Appends fails miniz own false print row) := by
  obtain ⟨text, encoded⟩ := Base64.encode_isSome
    (Nat.lt_succ_self (4 * (((miniz.compress row.value.bytes).length + 2) / 3)))
  have length := Base64.length_encode encoded
  apply (meets_alloc fails _).bind (zero_add _).symm
  rintro result left (⟨rfl, rfl, failed⟩ | ⟨b64, rfl, rfl⟩)
  · apply (leaves_free comp _).bind (zero_add _)
    rw [zero_add]
    exact .pure (appends_starved filled print failed)
  show Meets (printField _ _ _ _ _ (Base64.encode _ _)) _ _
  rw [encoded]
  have clean : (0 : UInt8) ∉ ascii "Z:" ++ text := by
    intro member
    rcases List.mem_append.mp member with mark | inside
    · exact absurd mark (by decide)
    · exact Base64.not_mem_encode encoded (by decide) inside
  have fits : (ascii "Z:" ++ text ++ [0]).length ≤ (List.replicate
      (4 * (((miniz.compress row.value.bytes).length + 2) / 3) + 1 + 3) junk).length := by
    rw [List.length_replicate, List.length_append, List.length_append, length]
    show 2 + _ + 1 ≤ _
    omega
  apply (leaves_overwrite b64 fits).bind rfl
  generalize (List.replicate _ junk).drop _ = behind
  apply (leaves_free comp _).bind (add_left_comm _ _ _)
  rw [zero_add]
  apply (returns_readStr (points.mono (Multiset.le_add_left _ _))).bind
  have field : Points ({(b64, Block.text (ascii "Z:" ++ text ++ [0] ++ behind))} + own)
      (some ⟨b64, 0⟩) (.ofBytes (ascii "Z:" ++ text)) := by
    refine ⟨b64, 0, ascii "Z:" ++ text ++ [0] ++ behind, rfl, by simp, by simp, ?_⟩
    rw [List.drop_zero, List.append_assoc _ [0]]
    exact ofBytes_terminated _ behind
  apply (returns_readStr field).bind
  apply (leaves_free b64 _).bind rfl
  rw [zero_add, CStr.bytes_ofBytes clean]
  refine .pure ⟨rfl, false, fun _ => rfl, ?_⟩
  simp [Store.appendDbRow, filled, encoded]

/-- `append_db_row` frees its buffers and prints a row in memory as the row it stands for. -/
theorem meets_appendDbRow {fields : RowFields} {row : Row} (key : Points own fields.key row.key)
    (value : Points own fields.value row.value) (expireAt : fields.expireAt = row.expireAt)
    (seek print : Bool) :
    Meets (appendDbRow fails junk miniz seek print fields) own
      (Appends fails miniz own seek print row) := by
  cases seek with
  | true => exact .pure ⟨rfl, false, fun _ => rfl, rfl⟩
  | false =>
    apply (returns_readStr value).bind
    rw [expireAt]
    cases filled : row.value.bytes.isEmpty with
    | true =>
      apply (returns_readStr key).bind
      exact .pure ⟨rfl, false, fun _ => rfl, by simp [Store.appendDbRow, filled]⟩
    | false =>
      apply (meets_alloc fails _).bind (zero_add own).symm
      rintro result left (⟨rfl, rfl, failed⟩ | ⟨comp, rfl, rfl⟩)
      · rw [zero_add]
        exact .pure (appends_starved filled print failed)
      apply (meets_alloc fails Block.handle).bind (zero_add _).symm
      rintro result left (⟨rfl, rfl, failed⟩ | ⟨state, rfl, rfl⟩)
      · apply (leaves_free comp _).bind (zero_add _)
        rw [zero_add]
        exact .pure (appends_starved filled print failed)
      apply (leaves_free state _).bind rfl
      rw [zero_add]
      exact meets_encodeField key filled print comp _

/-! ## Compaction -/

/-- The calls of the rows that fail, for the rows whose allocations do. -/
def IoFaults.append (io : IoFaults) (starved : Nat → Bool) (number : Nat) : AppendFaults :=
  ⟨io.seek number, starved number, false, false, io.print number⟩

/-- The rows from a number on do not look at what failed before it. -/
theorem writeRows_update {io : IoFaults} {starved : Nat → Bool} {past number : Nat}
    (before : past < number) (flag : Bool) (now : Int64) (rows : List Row) :
    writeRows miniz (io.append (Function.update starved past flag)) now number rows =
      writeRows miniz (io.append starved) now number rows := by
  induction rows generalizing number with
  | nil => rfl
  | cons row rest ih =>
    have other : number ≠ past := by omega
    have later : past < number + 1 := by omega
    have same : io.append (Function.update starved past flag) number =
        io.append starved number := by
      rw [IoFaults.append, IoFaults.append, Function.update_of_ne other]
    simp only [writeRows, same, ih before, ih later]

/-- What the loop of `db_rewrite_compact` writes of some rows. -/
def Writes (fails : Nat → Bool) (miniz : Miniz) (own : Cells) (io : IoFaults) (now : Int64)
    (number : Nat) (rows : List Row) (result : Option Bytes) (left : Cells) : Prop :=
  left = own ∧ ∃ starved : Nat → Bool,
    ((∀ call, fails call = false) → starved = fun _ => false) ∧
    result = writeRows miniz (io.append starved) now number rows

/-- The loop of `db_rewrite_compact` writes the rows from a slot on. -/
theorem Arrays.meets_writeFrom (arrays : Arrays) (len : Nat)
    (part : arrays.blocks + strings arrays.slots ≤ own) (io : IoFaults) (now : Int64)
    {left i number : Nat} (whole : i + left = arrays.slots.length) :
    Meets (writeFrom fails junk miniz io (arrays.fields len) now left i number) own
      (Writes fails miniz own io now number (rowsIn (arrays.slots.drop i))) := by
  have blocks : arrays.blocks ≤ own := le_trans (Multiset.le_add_right _ _) part
  induction left generalizing i number with
  | zero =>
    have done : arrays.slots.drop i = [] := List.drop_of_length_le (by omega)
    rw [done]
    exact .pure ⟨rfl, fun _ => false, fun _ => rfl, rfl⟩
  | succ left ih =>
    have inside : i < arrays.slots.length := by omega
    have place : arrays.slots[i]? = some arrays.slots[i] := List.getElem?_eq_getElem inside
    have later := fun number => @ih (i + 1) number (by omega)
    rw [rowsIn_drop place]
    generalize arrays.slots[i] = slot at place
    apply (arrays.returns_readUsed len blocks place).bind
    cases slot with
    | none => exact later number
    | some slot =>
      have strings : slot.cells ≤ own :=
        le_trans (cells_le_strings place) (le_trans (Multiset.le_add_left _ _) part)
      apply (arrays.returns_readRow len blocks place).bind
      apply (returns_rowIsLive (slot.points_value.mono strings) rfl now).bind
      show Meets _ own (Writes fails miniz own io now number
        (slot.row :: rowsIn (arrays.slots.drop (i + 1))))
      cases live : slot.row.isLive now with
      | false =>
        apply (later number).weaken
        rintro result left ⟨same, starved, calm, wrote⟩
        refine ⟨same, starved, calm, ?_⟩
        simp [writeRows, live, wrote]
      | true =>
        rw [if_pos rfl]
        apply (meets_appendDbRow (slot.points_key.mono strings) (slot.points_value.mono strings) rfl
          _ _).andThen
        rintro line left ⟨rfl, flag, calm, appended⟩
        cases line with
        | none =>
          refine .pure ⟨rfl, fun _ => flag, fun quiet => ?_, ?_⟩
          · rw [calm quiet]
          · simp [writeRows, live, IoFaults.append, ← appended]
        | some line =>
          apply (later (number + 1)).andThen
          rintro result left ⟨rfl, starved, quiet, wrote⟩
          refine .pure ⟨rfl, Function.update starved number flag, fun none => ?_, ?_⟩
          · rw [calm none, quiet none]
            exact Function.update_eq_self number _
          · rw [writeRows, writeRows_update (Nat.lt_add_one number), ← wrote]
            simp [live, IoFaults.append, ← appended]

/-- The loop of `db_rewrite_compact` writes the rows of an index. -/
theorem meets_writeFrom {fields : IndexFields} {index : RowIndex}
    (stored : Stored fields own index.arrays) (io : IoFaults) (now : Int64) :
    Meets (writeFrom fails junk miniz io fields now fields.cap 0 0) own
      (Writes fails miniz own io now 0 index.rows) := by
  rcases stored.rows_cases with ⟨empty, none⟩ | ⟨arrays, len, rfl, rfl, rows⟩
  · rw [empty, none]
    exact .pure ⟨rfl, fun _ => false, fun _ => rfl, rfl⟩
  · rw [← rows]
    exact arrays.meets_writeFrom len (le_refl _) io now (Nat.zero_add _)

/-- A call that opens fails because it has to or because an allocation does. -/
theorem meets_openHandle (fails : Nat → Bool) (failed : Bool) :
    Meets (openHandle fails failed) 0 fun result left =>
      ∃ refused : Bool, ((∀ call, fails call = false) → refused = failed) ∧
        ((refused = true ∧ result = none ∧ left = 0) ∨
          (refused = false ∧ ∃ block, result = some ⟨block, 0⟩ ∧ left = {(block, .handle)})) := by
  cases failed with
  | true => exact .pure ⟨true, fun _ => rfl, .inl ⟨rfl, rfl, rfl⟩⟩
  | false =>
    apply (meets_alloc fails Block.handle).weaken
    rintro result left (⟨rfl, rfl, call, starved⟩ | ⟨block, rfl, rfl⟩)
    · refine ⟨true, fun quiet => ?_, .inl ⟨rfl, rfl, rfl⟩⟩
      rw [quiet call] at starved
      contradiction
    · exact ⟨false, fun _ => rfl, .inr ⟨rfl, block, rfl, rfl⟩⟩

/-- The status and the files of a compaction that has written its loop's rows, or has not. -/
def replaceDb (io : IoFaults) (files : Files) : Option Bytes → Int × Files
  | none => (-1, ⟨files.db, none⟩)
  | some text =>
    if io.flush || io.sync then (-1, ⟨files.db, none⟩)
    else if io.rename then (-1, ⟨files.db, none⟩)
    else (0, ⟨text, none⟩)

/-- The temporary file is closed and the index freed. -/
theorem meets_closed {fields : IndexFields} {index : RowIndex}
    (stored : Stored fields own index.arrays) (tmpFd tmpFp : Nat)
    {last : Prog Block (Int × Files)} {answer : Int × Files}
    (done : Meets last 0 fun result left => left = 0 ∧ result = answer) :
    Meets (do
        closeTmp (some ⟨tmpFd, 0⟩) (some ⟨tmpFp, 0⟩)
        rowIndexFree fields
        last)
      (own + ({(tmpFp, .handle)} + {(tmpFd, .handle)})) fun result left => left = 0 ∧
        result = answer := by
  have closed : Leaves (closeTmp (some ⟨tmpFd, 0⟩) (some ⟨tmpFp, 0⟩))
      ({(tmpFp, .handle)} + {(tmpFd, .handle)}) 0 := by
    apply (leaves_free tmpFp _).bind rfl
    rw [zero_add]
    exact leaves_free tmpFd _
  apply closed.bind (add_comm _ _)
  rw [zero_add]
  apply (leaves_rowIndexFree stored).bind (add_zero _).symm
  rw [add_zero]
  exact done

/-- Every path from the end of the loop on closes the temporary file and frees the index. -/
theorem meets_finishCompact {fields : IndexFields} {index : RowIndex}
    (stored : Stored fields own index.arrays) (io : IoFaults) (files : Files)
    (tmpFd tmpFp : Nat) (text : Option Bytes) :
    Meets (finishCompact io files fields (some ⟨tmpFd, 0⟩) (some ⟨tmpFp, 0⟩) text)
      (own + ({(tmpFp, .handle)} + {(tmpFd, .handle)})) fun result left => left = 0 ∧
        result = replaceDb io files text := by
  unfold finishCompact replaceDb
  cases text with
  | none => exact meets_closed stored tmpFd tmpFp (.pure ⟨rfl, rfl⟩)
  | some text =>
    dsimp only
    by_cases unsynced : (io.flush || io.sync) = true
    · rw [if_pos unsynced, if_pos unsynced]
      exact meets_closed stored tmpFd tmpFp (.pure ⟨rfl, rfl⟩)
    · rw [if_neg unsynced, if_neg unsynced]
      apply meets_closed stored tmpFd tmpFp
      by_cases kept : io.rename = true
      · rw [if_pos kept, if_pos kept]
        exact .pure ⟨rfl, rfl⟩
      · rw [if_neg kept, if_neg kept]
        exact .pure ⟨rfl, rfl⟩

/-- The end of a compaction closes the temporary file and frees the index. -/
theorem meets_compactInto {fields : IndexFields} {index : RowIndex}
    (stored : Stored fields own index.arrays) (io : IoFaults) (now : Int64) (files : Files)
    (tmpFd tmpFp : Nat) :
    Meets (compactInto fails junk miniz io now files fields (some ⟨tmpFd, 0⟩) (some ⟨tmpFp, 0⟩))
      ({(tmpFp, .handle)} + ({(tmpFd, .handle)} + own)) fun result left => left = 0 ∧
        ∃ starved : Nat → Bool, ((∀ call, fails call = false) → starved = fun _ => false) ∧
          result = replaceDb io files (writeRows miniz (io.append starved) now 0 index.rows) := by
  apply (meets_writeFrom stored io now).bind ((add_assoc _ _ _).symm.trans (add_comm _ own))
  rintro text left ⟨rfl, starved, calm, rfl⟩
  apply (meets_finishCompact stored io files tmpFd tmpFp _).weaken
  rintro result left ⟨rfl, rfl⟩
  exact ⟨rfl, starved, calm, rfl⟩

/-- A compaction frees the index and closes what it opened on every path behind the load. -/
theorem meets_compactTmp {fields : IndexFields} {index : RowIndex}
    (stored : Stored fields own index.arrays) (io : IoFaults) (now : Int64) (files : Files) :
    Meets (compactTmp fails junk miniz io now files fields) own fun result left => left = 0 ∧
      ∃ (fdopen : Bool) (starved : Nat → Bool),
        ((∀ call, fails call = false) → fdopen = io.fdopen ∧ starved = fun _ => false) ∧
        result = if io.openTmp then (-1, files)
          else if fdopen then (-1, ⟨files.db, none⟩)
          else replaceDb io files (writeRows miniz (io.append starved) now 0 index.rows) := by
  apply (meets_openHandle (fun _ => false) io.openTmp).bind (zero_add own).symm
  rintro result left ⟨refused, same, opened⟩
  have known := same fun _ => rfl
  rcases opened with ⟨rfl, rfl, rfl⟩ | ⟨rfl, tmpFd, rfl, rfl⟩
  · rw [zero_add]
    apply (leaves_rowIndexFree stored).bind (add_zero _).symm
    exact .pure ⟨add_zero 0, io.fdopen, fun _ => false, fun _ => ⟨rfl, rfl⟩, by rw [← known]; rfl⟩
  apply (meets_openHandle fails io.fdopen).bind (zero_add _).symm
  rintro result left ⟨refused, fdopen, ⟨rfl, rfl, rfl⟩ | ⟨rfl, tmpFp, rfl, rfl⟩⟩
  · rw [zero_add]
    apply (leaves_free tmpFd _).bind rfl
    rw [zero_add]
    apply (leaves_rowIndexFree stored).bind (add_zero _).symm
    exact .pure ⟨add_zero 0, true, fun _ => false, fun quiet => ⟨fdopen quiet, rfl⟩,
      by rw [← known]; rfl⟩
  · apply (meets_compactInto stored io now files tmpFd tmpFp).weaken
    rintro result left ⟨rfl, starved, calm, rfl⟩
    exact ⟨rfl, false, starved, fun quiet => ⟨fdopen quiet, calm quiet⟩, by rw [← known]; rfl⟩

/-- The calls of a compaction that fail, from those of its memory. -/
def IoFaults.compact (io : IoFaults) (puts : Nat → PutFaults) (fdopen : Bool)
    (starved : Nat → Bool) : CompactFaults :=
  ⟨⟨io.reads, puts⟩, io.openTmp, fdopen, io.append starved, io.flush, io.sync, io.rename⟩

/-- A compaction gives back its memory and its files. -/
theorem meets_dbRewriteCompact (io : IoFaults) (dbPath : CStr) (now : Int64) {files : Files}
    (roomy : RoomyRows miniz (lines files.db)) :
    Meets (dbRewriteCompact fails junk miniz io dbPath now files) 0 fun result left => left = 0 ∧
      ∃ (silent : SilentFaults) (puts : Nat → PutFaults) (fdopen : Bool) (starved : Nat → Bool),
        ((∀ call, fails call = false) → silent = .none ∧ (puts = fun _ => ⟨false, false⟩) ∧
          fdopen = io.fdopen ∧ starved = fun _ => false) ∧
        result = Store.dbRewriteCompact miniz silent (io.compact puts fdopen starved) dbPath now
          files := by
  apply (meets_loadLatestRows roomy).andThen
  rintro ⟨done, fields⟩ left ⟨silent, puts, arr, stored, calm, answer⟩
  cases loaded : Store.loadFrom miniz silent ⟨io.reads, puts⟩ 0 (lines files.db) .empty with
  | none =>
    rw [loaded] at answer
    rw [if_neg (Bool.eq_false_iff.mp answer)]
    apply (leaves_rowIndexFree stored).bind (add_zero _).symm
    refine .pure ⟨add_zero 0, silent, puts, io.fdopen, fun _ => false,
      fun quiet => ⟨(calm quiet).1, (calm quiet).2, rfl, rfl⟩, ?_⟩
    simp only [Store.dbRewriteCompact, Store.loadLatestRows, IoFaults.compact, loaded]
  | some index =>
    rw [loaded] at answer
    obtain ⟨finished, rfl⟩ := answer
    rw [if_pos finished]
    by_cases long : pathMax ≤ dbPath.bytes.length + 4
    · rw [if_pos long]
      apply (leaves_rowIndexFree stored).bind (add_zero _).symm
      refine .pure ⟨add_zero 0, silent, puts, io.fdopen, fun _ => false,
        fun quiet => ⟨(calm quiet).1, (calm quiet).2, rfl, rfl⟩, ?_⟩
      simp only [Store.dbRewriteCompact, Store.loadLatestRows, IoFaults.compact, loaded, long,
        if_true]
    · rw [if_neg long]
      apply (meets_compactTmp stored io now files).weaken
      rintro result left ⟨rfl, fdopen, starved, quiet, rfl⟩
      refine ⟨rfl, silent, puts, fdopen, starved, fun none => ?_, ?_⟩
      · exact ⟨(calm none).1, (calm none).2, (quiet none).1, (quiet none).2⟩
      · simp only [Store.dbRewriteCompact, Store.loadLatestRows, IoFaults.compact, loaded, long,
          if_false]
        cases writeRows miniz (io.append starved) now 0 index.rows <;> rfl

/-- A compaction reads and writes inside its blocks only, frees each block and closes each file
once whatever call fails, and leaves the files that the failing calls explain. -/
theorem dbRewriteCompact_releases (fails : Nat → Bool) (junk : UInt8) (miniz : Miniz)
    (io : IoFaults) (dbPath : CStr) (now : Int64) (files : Files)
    (roomy : RoomyRows miniz (lines files.db)) :
    ∃ (silent : SilentFaults) (puts : Nat → PutFaults) (fdopen : Bool) (starved : Nat → Bool)
      (after : Heap Block),
      dbRewriteCompact fails junk miniz io dbPath now files .empty =
        some (Store.dbRewriteCompact miniz silent (io.compact puts fdopen starved) dbPath now files,
          after) ∧
      after.cells = [] ∧
      ((∀ call, fails call = false) → silent = .none ∧ (puts = fun _ => ⟨false, false⟩) ∧
        fdopen = io.fdopen ∧ starved = fun _ => false) := by
  obtain ⟨result, left, after, ran, holds, rfl, silent, puts, fdopen, starved, calm, rfl⟩ :=
    (meets_dbRewriteCompact io dbPath now roomy).run
  exact ⟨silent, puts, fdopen, starved, after, ran, (Multiset.coe_eq_zero _).mp holds, calm⟩

/-- No call fails but the rename. -/
def renameFails : IoFaults :=
  ⟨fun _ => false, false, false, fun _ => false, fun _ => false, false, false, true⟩

/-- A compaction of one row whose rename fails. -/
theorem dbRewriteCompact_releases_compressed :
    ∃ (silent : SilentFaults) (puts : Nat → PutFaults) (fdopen : Bool) (starved : Nat → Bool)
      (after : Heap Block),
      dbRewriteCompact (fun _ => false) 0 sampleMiniz renameFails (.ofBytes (ascii "db")) 100
          ⟨compressedRow, none⟩ .empty =
        some (Store.dbRewriteCompact sampleMiniz silent
          (renameFails.compact puts fdopen starved) (.ofBytes (ascii "db")) 100
          ⟨compressedRow, none⟩, after) ∧
      after.cells = [] ∧
      ((∀ _ : Nat, false = false) → silent = .none ∧ (puts = fun _ => ⟨false, false⟩) ∧
        fdopen = renameFails.fdopen ∧ starved = fun _ => false) :=
  dbRewriteCompact_releases _ _ _ _ _ _ _ roomyRows_compressedRow

end StreamPipeline.Store.Memory
