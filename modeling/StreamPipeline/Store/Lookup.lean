import StreamPipeline.Store.Compact

/-!
# Lookups after a compaction

A compaction drops expired and deleted rows together with every older row of their keys, so no
lookup at the time of the compaction or later can tell the new file from the old one.
-/

namespace StreamPipeline.Store

/-- The answer to a lookup: the latest row of the key when `row_is_live` accepts it. -/
def liveRow (miniz : Miniz) (content : Bytes) (key : CStr) (now : Int64) : Option Row :=
  match loadLatestRow miniz .none .none false key content with
  | some (some row) => if row.isLive now then some row else none
  | _ => none

/-- A lookup answers with the latest row of the file when it is live. -/
theorem liveRow_eq_visible (miniz : Miniz) (content : Bytes) (key : CStr) (now : Int64) :
    liveRow miniz content key now = visible (rowsOf miniz content) now key := by
  obtain ⟨index, loaded, answers⟩ := exists_loadLatestRows miniz content
  rw [liveRow, loadLatestRow, loaded, visible, ← answers]
  cases found : index.get key with
  | none => simp [found]
  | some row => simp [found, Option.filter_some]

/-- What was dead at a time is dead later. -/
theorem filter_isLive_mono (found : Option Row) {now later : Int64} (order : now ≤ later) :
    (found.filter fun row => row.isLive now).filter (fun row => row.isLive later) =
      found.filter fun row => row.isLive later := by
  cases found with
  | none => rfl
  | some row =>
    cases live : row.isLive later with
    | false => cases earlier : row.isLive now <;> simp [Option.filter_some, live, earlier]
    | true => simp [Option.filter_some, live, Row.isLive_mono order live]

/-- A successful compaction writes the live rows of the index it loaded. -/
theorem dbRewriteCompact_text {miniz : Miniz} {silent : SilentFaults} {faults : CompactFaults}
    {dbPath : CStr} {now : Int64} {files after : Files}
    (run : dbRewriteCompact miniz silent faults dbPath now files = (0, after)) :
    ∃ index, loadLatestRows miniz silent faults.load files.db = some index ∧
      after.db = rowLines miniz (index.rows.filter fun row => row.isLive now) := by
  revert run
  fun_cases dbRewriteCompact miniz silent faults dbPath now files with
  | case8 index loaded _ _ _ text written _ _ =>
    intro run
    cases run
    exact ⟨index, loaded, writeRows_eq written⟩
  | case1 | case2 | case3 | case4 | case5 | case6 | case7 =>
    intro run
    exact absurd (Prod.mk.inj run).1 (by decide)

/-- No lookup at the time of a compaction or later tells the new file from the old one; the new
file has one line for every key live at that time, and every line parses. -/
theorem compaction_keeps_answers {miniz : Miniz} (lawful : miniz.Lawful) {faults : CompactFaults}
    {dbPath : CStr} {now : Int64} {files after : Files}
    (run : dbRewriteCompact miniz .none faults dbPath now files = (0, after)) :
    (∀ key time, now ≤ time →
        liveRow miniz after.db key time = liveRow miniz files.db key time) ∧
      ∃ rows : List Row,
        (lines after.db).map (fun line => parseDbRow miniz .none (chomp line)) = rows.map some ∧
          (rows.map Row.key).Nodup ∧
          ∀ key, (∃ row ∈ rows, row.key = key) ↔
            (liveRow miniz files.db key now).isSome = true := by
  obtain ⟨index, loaded, text⟩ := dbRewriteCompact_text run
  have scan : scanned miniz .none 0 (lines files.db) = rowsOf miniz files.db := scanned_none _ _ _
  have answers : ∀ key, index.get key = latest (rowsOf miniz files.db) key := by
    intro key
    rw [get_loaded loaded, scan]
  have distinct : ((index.rows.filter fun row => row.isLive now).map Row.key).Nodup :=
    index.rows_nodup.sublist (List.filter_sublist.map _)
  have clean : ∀ row ∈ index.rows.filter fun row => row.isLive now, Clean row.key :=
    fun row member => clean_of_loaded loaded row (List.mem_of_mem_filter member)
  refine ⟨?_, _, by rw [text, parsed_rowLines lawful clean], distinct, ?_⟩
  · intro key time order
    rw [liveRow_eq_visible, liveRow_eq_visible, visible, visible, text,
      rowsOf_rowLines lawful clean, latest_live_rows, answers, filter_isLive_mono _ order]
  · intro key
    rw [liveRow_eq_visible, visible, ← answers, ← latest_live_rows, Option.isSome_iff_exists]
    exact exists_congr fun row => (latest_of_nodup distinct key row).symm

/-- Rows of five keys, as the old format and the new one write them. -/
def mixedRows : Bytes :=
  ascii "a\tplain\t0\nk\tZ:eJwrAwAAdwB3\t0\nbroken\na\t\t0\ne\tv\t90\nl\tv\t110\n"

/-- The file of the five keys after its compaction at 100. -/
def mixedAfter : Files := (dbRewriteCompact sampleMiniz .none .none (.ofBytes (ascii "clips.db"))
  100 ⟨mixedRows, none⟩).2

/-- The deleted key and the expired one are dropped with their older rows. -/
theorem compaction_keeps_answers_mixedRows :
    (∀ key time, 100 ≤ time →
        liveRow sampleMiniz mixedAfter.db key time = liveRow sampleMiniz mixedRows key time) ∧
      ∃ rows : List Row,
        (lines mixedAfter.db).map (fun line => parseDbRow sampleMiniz .none (chomp line)) =
            rows.map some ∧
          (rows.map Row.key).Nodup ∧
          ∀ key, (∃ row ∈ rows, row.key = key) ↔
            (liveRow sampleMiniz mixedRows key 100).isSome = true :=
  compaction_keeps_answers sampleMiniz_lawful (show dbRewriteCompact sampleMiniz .none .none
    (.ofBytes (ascii "clips.db")) 100 ⟨mixedRows, none⟩ = (0, mixedAfter) by decide +kernel)

end StreamPipeline.Store
