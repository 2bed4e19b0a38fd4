import StreamPipeline.Lib.Stdio
import StreamPipeline.Store.Frame

/-!
# The applet behind a buffer

The rows a writing invocation accepts go through the buffer of its database stream. A write of
the buffer that fails inside `fprintf` or `fseek` reaches the exit status; the one that
`fclose` makes does not.
-/

namespace StreamPipeline.Store

open Codec Stdio

section Buffer

variable (device : Device) (miniz : Miniz) (cjson : CJson)

/-- `append_db_row` on a stream, without failing allocations. -/
def appendStream (key value : CStr) (expireAt : Int64) (stream : Buffered) : Buffered × Bool :=
  andThen (device.seek stream) fun sought =>
    match appendDbRow miniz .none key value expireAt with
    | none => (sought, false)
    | some line => device.print line sought

/-- The status of the applet after an append. -/
def statusOf (result : Buffered × Bool) : Buffered × Nat := (result.1, if result.2 then 0 else 1)

/-- `MODE_APPEND`: the loop over standard input from a line on. -/
def appendStreamClips (ttl : Int64) (rowNow : Nat → Int64) :
    Nat → List Bytes → Buffered → Buffered × Nat
  | _, [], stream => (stream, 0)
  | number, line :: rest, stream =>
    match extractClip cjson line with
    | none => appendStreamClips ttl rowNow (number + 1) rest stream
    | some (key, path) =>
      let appended :=
        appendStream device miniz key path (expiration ttl (rowNow number)) stream
      if appended.2 then appendStreamClips ttl rowNow (number + 1) rest appended.1
      else (appended.1, 1)

/-- `MODE_SET`. -/
def setStream (arg : CStr) (ttl now : Int64) (stream : Buffered) : Buffered × Nat :=
  match parseSetExpr arg with
  | none => (stream, 1)
  | some (key, value) =>
    if key.bytes = [] ∨ value.bytes = [] then (stream, 1)
    else statusOf (appendStream device miniz key value (expiration ttl now) stream)

/-- `MODE_DELETE`. -/
def deleteStream (key : CStr) (stream : Buffered) : Buffered × Nat :=
  if key.bytes = [] then (stream, 1)
  else statusOf (appendStream device miniz key .empty 0 stream)

/-- The mode of an invocation on the database stream. The modes that write no row put nothing on
it; a compaction writes a stream of its own. -/
def Invocation.onStream (run : Invocation) (ttl : Int64) (stream : Buffered) : Buffered × Nat :=
  match run.mode with
  | .append stdin => appendStreamClips device miniz cjson ttl run.rowNow 0 (lines stdin) stream
  | .set arg => setStream device miniz arg ttl run.now stream
  | .delete key => deleteStream device miniz key stream
  | _ => (stream, (clipStoreMain miniz cjson run stream.file).status)

/-- `clip_store_main`: the exit status and the file it opened. The report of `fclose` is
ignored. -/
def clipStoreStream (run : Invocation) (db : Bytes) : Nat × Bytes :=
  match parseTtl run.ttlArg with
  | none => (1, db)
  | some ttl =>
    let done := run.onStream device miniz cjson ttl (.start db)
    (done.2, (device.close done.1).1)

/-- The lines of the rows an invocation accepts. -/
def Invocation.records (run : Invocation) : List Bytes :=
  (run.rows cjson).map fun row =>
    rowLine row.key.bytes (valueField miniz row.value) row.expireAt

variable {device miniz cjson}

/-- A row is appended as the record of its line. -/
theorem appendStream_eq (key value : CStr) (expireAt : Int64) :
    appendStream device miniz key value expireAt =
      device.appendRecord (rowLine key.bytes (valueField miniz value) expireAt) := by
  funext stream
  rw [appendStream, appendDbRow_none]
  rfl

/-- The clips of standard input are appended as the records of their lines. -/
theorem appendStreamClips_eq (ttl : Int64) (rowNow : Nat → Int64) (number : Nat)
    (text : List Bytes) (stream : Buffered) :
    appendStreamClips device miniz cjson ttl rowNow number text stream =
      statusOf (device.appendRecords ((clipWrites cjson rowNow number text).map fun write =>
        rowLine write.key.bytes (valueField miniz write.value) (expiration ttl write.time))
        stream) := by
  induction text generalizing number stream with
  | nil => rfl
  | cons line rest ih =>
    unfold appendStreamClips clipWrites
    cases extractClip cjson line with
    | none => exact ih (number + 1) stream
    | some clip =>
      simp only [appendStream_eq, List.map_cons, Device.appendRecords, andThen]
      split
      · exact ih (number + 1) _
      · rename_i failed
        simp [statusOf, failed]

/-- A writing mode accepts nothing and leaves the stream alone, or appends the records of its
rows. -/
theorem onStream_records {run : Invocation} (writes : run.mode.Writes) {ttl : Int64}
    (parsed : parseTtl run.ttlArg = some ttl) (stream : Buffered) :
    (run.rows cjson = [] ∧ (run.onStream device miniz cjson ttl stream).1 = stream) ∨
      run.onStream device miniz cjson ttl stream =
        statusOf (device.appendRecords (run.records miniz cjson) stream) := by
  obtain ⟨mode, ttlArg, dbPath, now, rowNow⟩ := run
  simp only [Invocation.onStream, Invocation.records, Invocation.rows, parsed]
  cases mode with
  | get | list | withPrefix | compact => contradiction
  | delete key =>
    by_cases empty : key.bytes = []
    · exact .inl (by simp [deleteStream, Invocation.deletes, Invocation.writes, empty])
    · refine .inr ?_
      simp only [deleteStream, Invocation.deletes, if_neg empty, appendStream_eq,
        List.map_singleton, Device.appendRecords_singleton]
  | set arg =>
    simp only [setStream, Invocation.deletes, Invocation.writes]
    cases parseSetExpr arg with
    | none => exact .inl (by simp)
    | some parts =>
      by_cases empty : parts.1.bytes = [] ∨ parts.2.bytes = []
      · exact .inl (by simp [empty])
      · refine .inr ?_
        simp only [if_neg empty, appendStream_eq, List.map_singleton,
          Device.appendRecords_singleton]
  | append stdin =>
    refine .inr ?_
    simp only [appendStreamClips_eq, Invocation.deletes, Invocation.writes, List.map_map]
    rfl

/-- Every record has bytes. -/
theorem records_ne_nil {run : Invocation} :
    ∀ record ∈ run.records miniz cjson, record ≠ [] := by
  intro record member
  obtain ⟨row, _, rfl⟩ := List.mem_map.mp member
  simp [rowLine]

/-- An exit status of zero means that the rows of the accepted lines are in the file, complete and
in order, exactly when the write of the buffer at the close does no harm. -/
theorem stored_iff_closeHarmless (device : Device) (miniz : Miniz) (cjson : CJson)
    {run : Invocation} (writes : run.mode.Writes) (db : Bytes) :
    ((clipStoreStream device miniz cjson run db).1 = 0 →
        (clipStoreStream device miniz cjson run db).2 = db ++ rowLines miniz (run.rows cjson)) ↔
      device.CloseHarmless (run.records miniz cjson) := by
  have text : (run.records miniz cjson).flatten = rowLines miniz (run.rows cjson) := by
    rw [Invocation.records, rowLines, List.flatMap_def]
  have alone : (device.close (.start db)).1 = db := rfl
  have quiet : run.rows cjson = [] → device.CloseHarmless (run.records miniz cjson) := by
    intro none
    exact .inl (by rw [Invocation.records, none, List.map_nil])
  unfold clipStoreStream
  cases parsed : parseTtl run.ttlArg with
  | none =>
    have none : run.rows cjson = [] := by simp [Invocation.rows, parsed]
    simp [quiet none]
  | some ttl =>
    have either : (_ ∧ (run.onStream device miniz cjson ttl (.start db)).1 = _) ∨ _ :=
      onStream_records writes parsed (.start db)
    rcases either with ⟨none, idle⟩ | appended
    · simp [none, idle, alone, rowLines, quiet none]
    · have closed : _ ↔ device.CloseHarmless (run.records miniz cjson) :=
        Device.closed_records_iff records_ne_nil db
      rw [← closed, ← text]
      simp only [appended, statusOf]
      simp

end Buffer

/-- A buffer of one block, whose writes all fail before the first byte. -/
def fullDisk : Device := ⟨4096, by decide, fun _ => some 0⟩

/-- A buffer of sixteen bytes, whose second write fails. -/
def secondFails : Device := ⟨16, by decide, fun number => if number = 1 then some 3 else none⟩

/-- A row that fills the buffer once: the write that fails is the one of the close. -/
theorem stored_iff_closeHarmless_secondFails :
    ((clipStoreStream secondFails sampleMiniz oneClipJson (setForever "k=v") []).1 = 0 →
        (clipStoreStream secondFails sampleMiniz oneClipJson (setForever "k=v") []).2 =
          [] ++ rowLines sampleMiniz ((setForever "k=v").rows oneClipJson)) ↔
      secondFails.CloseHarmless ((setForever "k=v").records sampleMiniz oneClipJson) :=
  stored_iff_closeHarmless secondFails sampleMiniz oneClipJson
    (show (setForever "k=v").mode.Writes from trivial) []

/-- On a full disk `--set` exits with zero, and the row is not in the file. -/
theorem failed_close_acknowledged :
    (clipStoreStream fullDisk sampleMiniz oneClipJson (setForever "k=v") []).1 = 0 ∧
      (clipStoreStream fullDisk sampleMiniz oneClipJson (setForever "k=v") []).2 = [] ∧
      ¬((clipStoreStream fullDisk sampleMiniz oneClipJson (setForever "k=v") []).1 = 0 →
        (clipStoreStream fullDisk sampleMiniz oneClipJson (setForever "k=v") []).2 =
          [] ++ rowLines sampleMiniz ((setForever "k=v").rows oneClipJson)) := by
  decide +kernel

end StreamPipeline.Store
