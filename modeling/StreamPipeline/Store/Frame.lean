import StreamPipeline.Store.Refinement

/-!
# What one write changes

An accepted write appends one line. The line is the written row, and leaves every other key
alone, exactly when the key holds no byte that separates fields or ends lines: a row read from a
file never has such a key, so a write under one is lost, or forges rows of other keys.
-/

namespace StreamPipeline.Store

open Codec

/-- The mode appends rows. -/
def Mode.Writes : Mode → Prop
  | .append _ | .set _ | .delete _ => True
  | _ => False

/-- The rows an invocation is asked to write and accepts, in order. -/
def Invocation.rows (cjson : CJson) (run : Invocation) : List Row :=
  match parseTtl run.ttlArg with
  | none => []
  | some ttl =>
    match run.deletes with
    | some key => [⟨key, .empty, 0⟩]
    | none => (run.writes cjson).map fun write =>
        ⟨write.key, write.value, expiration ttl write.time⟩

/-- The written row is the latest of its key, and every other key has the latest row it had. -/
def Framed (miniz : Miniz) (before after : Bytes) (row : Row) : Prop :=
  latest (rowsOf miniz after) row.key = some row ∧
    ∀ other, other ≠ row.key →
      latest (rowsOf miniz after) other = latest (rowsOf miniz before) other

/-- A row of a file has a clean key. -/
theorem clean_of_latest {miniz : Miniz} {content : Bytes} {key : CStr} {row : Row}
    (found : latest (rowsOf miniz content) key = some row) : Clean key := by
  obtain ⟨member, same⟩ := latest_mem found
  rw [rowsOf, ← scanned_none miniz 0] at member
  rw [← same]
  exact clean_of_scanned member

/-- One written line frames its row exactly when the key is clean. -/
theorem framed_iff_clean {miniz : Miniz} (lawful : miniz.Lawful) {db : Bytes}
    (complete : Complete db) (row : Row) :
    Framed miniz db (db ++ rowLine row.key.bytes (valueField miniz row.value) row.expireAt) row ↔
      Clean row.key := by
  constructor
  · intro framed
    exact clean_of_latest framed.1
  · intro clean
    constructor
    · rw [latest_rowsOf_append lawful complete clean, if_pos rfl]
    · intro other differs
      rw [latest_rowsOf_append lawful complete clean, if_neg (Ne.symm differs)]

/-- The clips of standard input are appended and acknowledged. -/
theorem appendClips_eq (miniz : Miniz) (cjson : CJson) (ttl : Int64) (rowNow : Nat → Int64)
    (number : Nat) (text : List Bytes) (db : Bytes) :
    appendClips miniz cjson ttl rowNow number text db =
      ⟨0, [], db ++ rowLines miniz ((clipWrites cjson rowNow number text).map fun write =>
        ⟨write.key, write.value, expiration ttl write.time⟩)⟩ := by
  induction text generalizing number db with
  | nil => simp [appendClips, clipWrites, rowLines]
  | cons line rest ih =>
    unfold appendClips clipWrites
    cases extractClip cjson line with
    | none => exact ih (number + 1) db
    | some clip =>
      simp only [appendDbRow_none, ih]
      simp [rowLines]

/-- A writing invocation appends the lines of the rows it accepts, and acknowledges them. -/
theorem clipStoreMain_rows (miniz : Miniz) (cjson : CJson) {run : Invocation}
    (writes : run.mode.Writes) (db : Bytes) :
    (clipStoreMain miniz cjson run db).db = db ++ rowLines miniz (run.rows cjson) ∧
      (run.rows cjson ≠ [] → (clipStoreMain miniz cjson run db).status = 0) := by
  obtain ⟨mode, ttlArg, dbPath, now, rowNow⟩ := run
  cases parsed : parseTtl ttlArg with
  | none => simp [clipStoreMain, Invocation.rows, parsed, rowLines]
  | some ttl =>
    simp only [clipStoreMain, Invocation.rows, parsed]
    cases mode with
    | get | list | withPrefix | compact => contradiction
    | delete key =>
      by_cases empty : key.bytes = []
      · simp [runDelete, Invocation.deletes, Invocation.writes, empty, rowLines]
      · simp [runDelete, Invocation.deletes, empty, rowLines]
    | set arg =>
      simp only [runSet, Invocation.deletes, Invocation.writes]
      cases parseSetExpr arg with
      | none => simp [rowLines]
      | some parts =>
        by_cases empty : parts.1.bytes = [] ∨ parts.2.bytes = []
        · simp [empty, rowLines]
        · simp [empty, rowLines]
    | append stdin => simp [appendClips_eq, Invocation.deletes, Invocation.writes]

/-- Lines of rows after a complete file form a complete file. -/
theorem complete_append_rowLines {miniz : Miniz} {db : Bytes} (complete : Complete db)
    (rows : List Row) : Complete (db ++ rowLines miniz rows) :=
  complete.append (complete_rowLines miniz rows)

/-- Each row a writing invocation accepts is stored under exactly its key, and disturbs no other,
if and only if its key is clean. -/
theorem accepted_framed_iff_clean {miniz : Miniz} (lawful : miniz.Lawful) (cjson : CJson)
    {db : Bytes} (complete : Complete db) (run : Invocation) (writes : run.mode.Writes)
    (earlier later : List Row) (row : Row) (accepted : run.rows cjson = earlier ++ row :: later) :
    (clipStoreMain miniz cjson run db).status = 0 ∧
      (clipStoreMain miniz cjson run db).db =
        db ++ rowLines miniz (earlier ++ [row]) ++ rowLines miniz later ∧
      (Framed miniz (db ++ rowLines miniz earlier) (db ++ rowLines miniz (earlier ++ [row])) row ↔
        Clean row.key) := by
  obtain ⟨file, acknowledged⟩ := clipStoreMain_rows miniz cjson writes db
  refine ⟨acknowledged (by simp [accepted]), ?_, ?_⟩
  · rw [file, accepted]
    simp [rowLines]
  · have line : db ++ rowLines miniz (earlier ++ [row]) = db ++ rowLines miniz earlier ++
        rowLine row.key.bytes (valueField miniz row.value) row.expireAt := by
      simp [rowLines]
    rw [line]
    exact framed_iff_clean lawful (complete_append_rowLines complete earlier) row

/-- `--set` with a time to live of zero. -/
def setForever (arg : String) : Invocation :=
  ⟨.set (.ofBytes (ascii arg)), .ofBytes (ascii "0"), .ofBytes (ascii "clips.db"), 100,
    fun _ => 100⟩

/-- A write under a plain key to a file with a plain row. -/
theorem accepted_framed_iff_clean_plainKey :
    (clipStoreMain sampleMiniz oneClipJson (setForever "k=v") (ascii "j\tw\t0\n")).status = 0 ∧
      (clipStoreMain sampleMiniz oneClipJson (setForever "k=v") (ascii "j\tw\t0\n")).db =
        ascii "j\tw\t0\n" ++
          rowLines sampleMiniz ([] ++ [⟨.ofBytes (ascii "k"), .ofBytes (ascii "v"), 0⟩]) ++
          rowLines sampleMiniz [] ∧
      (Framed sampleMiniz (ascii "j\tw\t0\n" ++ rowLines sampleMiniz [])
        (ascii "j\tw\t0\n" ++
          rowLines sampleMiniz ([] ++ [⟨.ofBytes (ascii "k"), .ofBytes (ascii "v"), 0⟩]))
        ⟨.ofBytes (ascii "k"), .ofBytes (ascii "v"), 0⟩ ↔ Clean (.ofBytes (ascii "k"))) :=
  accepted_framed_iff_clean sampleMiniz_lawful oneClipJson (by decide) (setForever "k=v") trivial
    [] [] _ (by decide)

/-- A row set under a key with a tab is acknowledged, and no row of that key is there. -/
theorem tabbed_key_lost :
    (setForever "a\tb=v").rows oneClipJson =
        [⟨.ofBytes (ascii "a\tb"), .ofBytes (ascii "v"), 0⟩] ∧
      (clipStoreMain sampleMiniz oneClipJson (setForever "a\tb=v") []).status = 0 ∧
      ¬Framed sampleMiniz [] (clipStoreMain sampleMiniz oneClipJson (setForever "a\tb=v") []).db
        ⟨.ofBytes (ascii "a\tb"), .ofBytes (ascii "v"), 0⟩ := by
  refine ⟨by decide, by decide, ?_⟩
  intro framed
  exact absurd (clean_of_latest framed.1) (by decide)

end StreamPipeline.Store
