import StreamPipeline.Store.Index

/-!
# Compaction

`db_rewrite_compact` loads the index, writes its live rows to a temporary file and renames it
over the database. A failure before the rename leaves the database alone and removes the
temporary file. The rows it keeps are the ones a query would show.
-/

namespace StreamPipeline.Store

/-- The bytes behind the database path and behind its temporary path. -/
structure Files where
  /-- The content of `db_path`. -/
  db : Bytes
  /-- The content of `db_path.tmp`, when it exists. -/
  tmp : Option Bytes
  deriving DecidableEq

/-- The calls of one compaction that fail with its notice. -/
structure CompactFaults where
  /-- The load of the index. -/
  load : LoadFaults
  /-- `open` of the temporary file. -/
  openTmp : Bool
  /-- `fdopen` of the temporary file. -/
  fdopen : Bool
  /-- The rows written, by their number. -/
  append : Nat → AppendFaults
  /-- `fflush`. -/
  flush : Bool
  /-- `fsync`. -/
  sync : Bool
  /-- `rename`. -/
  rename : Bool

/-- No call fails. -/
def CompactFaults.none : CompactFaults :=
  ⟨.none, false, false, fun _ => .none, false, false, false⟩

/-- The lines of rows, one after the other. -/
def rowLines (miniz : Miniz) (rows : List Row) : Bytes :=
  rows.flatMap fun row => rowLine row.key.bytes (valueField miniz row.value) row.expireAt

/-- The loop over the buckets: the lines of the live rows; none when a row is not written. -/
def writeRows (miniz : Miniz) (faults : Nat → AppendFaults) (now : Int64) :
    Nat → List Row → Option Bytes
  | _, [] => some []
  | number, row :: rest =>
    if !row.isLive now then writeRows miniz faults now number rest
    else
      match appendDbRow miniz (faults number) row.key row.value row.expireAt with
      | none => none
      | some line => (writeRows miniz faults now (number + 1) rest).map (line ++ ·)

/-- `db_rewrite_compact` with its status. -/
def dbRewriteCompact (miniz : Miniz) (silent : SilentFaults) (faults : CompactFaults)
    (dbPath : CStr) (now : Int64) (files : Files) : Int × Files :=
  match loadLatestRows miniz silent faults.load files.db with
  | none => (-1, files)
  | some rows =>
    if pathMax ≤ dbPath.bytes.length + 4 then (-1, files)
    else if faults.openTmp then (-1, files)
    else if faults.fdopen then (-1, ⟨files.db, none⟩)
    else
      match writeRows miniz faults.append now 0 rows.rows with
      | none => (-1, ⟨files.db, none⟩)
      | some text =>
        if faults.flush || faults.sync then (-1, ⟨files.db, none⟩)
        else if faults.rename then (-1, ⟨files.db, none⟩)
        else (0, ⟨text, none⟩)

/-! ## The written rows -/

/-- The lines written are the rows' own, whatever faults did not strike. -/
theorem writeRows_eq {miniz : Miniz} {faults : Nat → AppendFaults} {now : Int64} {number : Nat}
    {rows : List Row} {text : Bytes}
    (written : writeRows miniz faults now number rows = some text) :
    text = rowLines miniz (rows.filter fun row => row.isLive now) := by
  induction rows generalizing number text with
  | nil => exact (Option.some.inj written).symm
  | cons row rest ih =>
    unfold writeRows at written
    cases live : row.isLive now with
    | false =>
      rw [live] at written
      rw [List.filter_cons_of_neg (by simp [live])]
      exact ih written
    | true =>
      rw [live] at written
      rw [List.filter_cons_of_pos (by simp [live]), rowLines, List.flatMap_cons]
      simp only [Bool.not_true, Bool.false_eq_true, ↓reduceIte] at written
      split at written
      · contradiction
      · rename_i line appended
        obtain ⟨later, wrote, rfl⟩ := Option.map_eq_some_iff.mp written
        rw [appendDbRow_faults appended, ih wrote]
        rfl

/-- Without faults every live row is written. -/
theorem writeRows_none (miniz : Miniz) (now : Int64) (number : Nat) (rows : List Row) :
    (writeRows miniz (fun _ => .none) now number rows).isSome = true := by
  induction rows generalizing number with
  | nil => rfl
  | cons row rest ih =>
    unfold writeRows
    split
    · exact ih number
    · rw [appendDbRow_none]
      simpa using ih (number + 1)

/-- Lines of rows form a complete text. -/
theorem complete_rowLines (miniz : Miniz) (rows : List Row) :
    Complete (rowLines miniz rows) := by
  induction rows with
  | nil => exact complete_nil
  | cons row rest ih =>
    rw [rowLines, List.flatMap_cons, rowLine_eq]
    exact (complete_snoc _).append ih

/-- Every line of rows with clean keys reads back as its row. -/
theorem parsed_rowLines {miniz : Miniz} (lawful : miniz.Lawful) {rows : List Row}
    (clean : ∀ row ∈ rows, Clean row.key) :
    (lines (rowLines miniz rows)).map (fun line => parseDbRow miniz .none (chomp line)) =
      rows.map some := by
  induction rows with
  | nil => rfl
  | cons row rest ih =>
    have first : Clean row.key := clean row List.mem_cons_self
    have line : Complete (rowLine row.key.bytes (valueField miniz row.value) row.expireAt) := by
      rw [rowLine_eq]
      exact complete_snoc _
    have later := ih fun other member => clean other (List.mem_cons_of_mem row member)
    rw [rowLines] at later ⊢
    rw [List.flatMap_cons, lines_append line, lines_rowLine miniz first, List.map_append, later,
      List.map_singleton, parseDbRow_rowLine lawful first]
    rfl

/-- The lines of rows with clean keys read back as the rows. -/
theorem rowsOf_rowLines {miniz : Miniz} (lawful : miniz.Lawful) {rows : List Row}
    (clean : ∀ row ∈ rows, Clean row.key) :
    rowsOf miniz (rowLines miniz rows) = rows := by
  have parsed := congrArg (List.filterMap id) (parsed_rowLines lawful clean)
  rw [List.filterMap_map, List.filterMap_map] at parsed
  rw [rowsOf]
  exact parsed.trans List.filterMap_some

/-- The latest of an index's live rows is the row a query of the index would show. -/
theorem latest_live_rows (index : RowIndex) (now : Int64) (key : CStr) :
    latest (index.rows.filter fun row => row.isLive now) key =
      (index.get key).filter fun row => row.isLive now := by
  have distinct : ((index.rows.filter fun row => row.isLive now).map Row.key).Nodup :=
    index.rows_nodup.sublist (List.filter_sublist.map _)
  apply Option.ext
  intro row
  rw [Option.filter_eq_some_iff, latest_of_nodup distinct, List.mem_filter, index.mem_rows]
  constructor
  · rintro ⟨⟨got, live⟩, rfl⟩
    exact ⟨got, live⟩
  · rintro ⟨got, live⟩
    have same := RowIndex.key_of_get got
    subst same
    exact ⟨⟨got, live⟩, rfl⟩

/-! ## Outcomes -/

/-- What a successful compaction leaves: a complete file whose latest rows are the ones its load
found live. -/
structure Compacted (miniz : Miniz) (silent : SilentFaults) (now : Int64)
    (before after : Files) : Prop where
  complete : Complete after.db
  renamed : after.tmp = none
  latest_eq : ∀ key, latest (rowsOf miniz after.db) key =
    visible (scanned miniz silent 0 (lines before.db)) now key

/-- A loaded index answers with the latest row the load stored. -/
theorem get_loaded {miniz : Miniz} {silent : SilentFaults} {load : LoadFaults} {content : Bytes}
    {index : RowIndex} (loaded : loadLatestRows miniz silent load content = some index)
    (key : CStr) : index.get key = latest (scanned miniz silent 0 (lines content)) key := by
  rw [get_loadFrom loaded]
  exact Option.or_none

/-- The keys of a loaded index can be written again. -/
theorem clean_of_loaded {miniz : Miniz} {silent : SilentFaults} {load : LoadFaults}
    {content : Bytes} {index : RowIndex}
    (loaded : loadLatestRows miniz silent load content = some index) :
    ∀ row ∈ index.rows, Clean row.key := by
  intro row member
  rw [index.mem_rows, get_loaded loaded] at member
  exact clean_of_scanned (latest_mem member).1

/-- The file written from a loaded index. -/
private theorem compacted_of_written {miniz : Miniz} (lawful : miniz.Lawful)
    {silent : SilentFaults} {load : LoadFaults} {append : Nat → AppendFaults} {now : Int64}
    {files : Files} {index : RowIndex} {text : Bytes}
    (loaded : loadLatestRows miniz silent load files.db = some index)
    (written : writeRows miniz append now 0 index.rows = some text) :
    Compacted miniz silent now files ⟨text, none⟩ := by
  have answers := get_loaded loaded
  have clean := clean_of_loaded loaded
  have same := writeRows_eq written
  refine ⟨?_, rfl, fun key => ?_⟩
  · show Complete text
    rw [same]
    exact complete_rowLines miniz _
  · show latest (rowsOf miniz text) key = _
    rw [same, rowsOf_rowLines lawful fun row member => clean row (List.mem_of_mem_filter member),
      latest_live_rows, answers]
    rfl

/-- A compaction that fails leaves the database alone; one that succeeds leaves exactly the rows
its load found live. -/
theorem dbRewriteCompact_outcome {miniz : Miniz} (lawful : miniz.Lawful) {silent : SilentFaults}
    {faults : CompactFaults} {dbPath : CStr} {now : Int64} {files after : Files} {status : Int}
    (run : dbRewriteCompact miniz silent faults dbPath now files = (status, after)) :
    (status = -1 ∧ after.db = files.db) ∨
      (status = 0 ∧ Compacted miniz silent now files after) := by
  revert run
  fun_cases dbRewriteCompact miniz silent faults dbPath now files with
  | case8 index loaded _ _ _ text written _ _ =>
    intro run
    obtain ⟨rfl, rfl⟩ := Prod.mk.inj run
    exact .inr ⟨rfl, compacted_of_written lawful loaded written⟩
  | case1 | case2 | case3 | case4 | case5 | case6 | case7 =>
    intro run
    obtain ⟨rfl, rfl⟩ := Prod.mk.inj run
    exact .inl ⟨rfl, rfl⟩

/-- A path too long for the temporary name makes every compaction fail. -/
theorem dbRewriteCompact_long (miniz : Miniz) (silent : SilentFaults) (faults : CompactFaults)
    {dbPath : CStr} (long : pathMax ≤ dbPath.bytes.length + 4) (now : Int64) (files : Files) :
    dbRewriteCompact miniz silent faults dbPath now files = (-1, files) := by
  unfold dbRewriteCompact
  split
  · rfl
  · rw [if_pos long]

/-- Nothing but a fault or a long path makes a compaction fail. -/
theorem dbRewriteCompact_none (miniz : Miniz) (silent : SilentFaults) {dbPath : CStr}
    (short : dbPath.bytes.length + 4 < pathMax) (now : Int64) (files : Files) :
    ∃ after, dbRewriteCompact miniz silent .none dbPath now files = (0, after) := by
  obtain ⟨index, loaded⟩ := loadFrom_none miniz silent 0 (lines files.db) .empty
  obtain ⟨text, written⟩ := Option.isSome_iff_exists.mp (writeRows_none miniz now 0 index.rows)
  have loaded : loadLatestRows miniz silent CompactFaults.none.load files.db = some index := loaded
  have written : writeRows miniz CompactFaults.none.append now 0 index.rows = some text := written
  rw [dbRewriteCompact, loaded]
  dsimp only
  rw [if_neg (by omega), written]
  exact ⟨_, rfl⟩

end StreamPipeline.Store
