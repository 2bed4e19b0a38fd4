import StreamPipeline.Store.Linear
import StreamPipeline.Store.Lookup

/-!
# Compactions are not observed

A compaction rewrites the database and drops rows, and moves the others to where its hash table
has them. No query at its time or later can tell: it prints the same rows as without any
compaction, a listing perhaps in another order.
-/

namespace StreamPipeline.Store

open Codec

/-- Two files of whole lines show the same row under every key. -/
structure Alike (miniz : Miniz) (now : Int64) (left right : Bytes) : Prop where
  wholeLeft : Complete left
  wholeRight : Complete right
  same : ∀ key, visible (rowsOf miniz left) now key = visible (rowsOf miniz right) now key

section Alike

variable {miniz : Miniz} {cjson : CJson} {now : Int64} {left right : Bytes}

/-- The visible row after a text was appended. -/
theorem visible_append (complete : Complete left) (text : Bytes) (key : CStr) :
    visible (rowsOf miniz (left ++ text)) now key =
      match latest (rowsOf miniz text) key with
      | some row => if row.isLive now then some row else none
      | none => visible (rowsOf miniz left) now key := by
  rw [visible, rowsOf_append miniz complete, latest_append]
  cases latest (rowsOf miniz text) key with
  | none => rw [Option.none_or, visible]
  | some row => rw [Option.some_or, Option.filter_some]

/-- A writing invocation writes the same to both. -/
theorem Alike.write (alike : Alike miniz now left right) {run : Invocation}
    (writes : run.mode.Writes) :
    Alike miniz now (clipStoreMain miniz cjson run left).db
      (clipStoreMain miniz cjson run right).db := by
  rw [(clipStoreMain_rows miniz cjson writes left).1,
    (clipStoreMain_rows miniz cjson writes right).1]
  refine ⟨complete_append_rowLines alike.wholeLeft _, complete_append_rowLines alike.wholeRight _, ?_⟩
  intro key
  rw [visible_append alike.wholeLeft, visible_append alike.wholeRight, alike.same key]

/-- A compaction of one is not seen at its time or later. -/
theorem Alike.compact (lawful : miniz.Lawful) (alike : Alike miniz now left right)
    {run : Invocation} (quiet : ¬run.mode.Writes)
    (early : run.mode.compacts = true → run.now ≤ now) :
    Alike miniz now (clipStoreMain miniz cjson run left).db right := by
  rcases @clipStoreMain_reads miniz cjson run lawful quiet left with
    same | ⟨compacts, after, same, compacted⟩
  · rw [same]
    exact alike
  · rw [same]
    refine ⟨compacted.complete, alike.wholeRight, fun key => ?_⟩
    rw [visible, compacted.latest_eq, scanned_none]
    show (visible (rowsOf miniz left) run.now key).filter _ = _
    rw [visible, filter_isLive_mono _ (early compacts), ← alike.same key]
    rfl

/-- A history with its compactions and without them. -/
theorem alike_dbAfter (lawful : miniz.Lawful) {history : List Invocation}
    (early : ∀ run ∈ history, run.mode.compacts = true → run.now ≤ now)
    (alike : Alike miniz now left right) :
    Alike miniz now (dbAfter miniz cjson history left)
      (dbAfter miniz cjson (history.filter fun run => !run.mode.compacts) right) := by
  induction history generalizing left right with
  | nil => exact alike
  | cons run history ih =>
    have later {left right : Bytes} (alike : Alike miniz now left right) :=
      ih (fun other member => early other (List.mem_cons_of_mem run member)) alike
    cases compacts : run.mode.compacts with
    | true =>
      have quiet : ¬run.mode.Writes := by
        intro writes
        rw [writes.compacts] at compacts
        contradiction
      rw [List.filter_cons_of_neg (by simp [compacts])]
      exact later (alike.compact lawful quiet fun _ => early run List.mem_cons_self compacts)
    | false =>
      rw [List.filter_cons_of_pos (by simp [compacts])]
      apply later
      by_cases writes : run.mode.Writes
      · exact alike.write writes
      · dsimp only
        rw [clipStoreMain_query writes compacts, clipStoreMain_query writes compacts]
        exact alike

end Alike

/-! ## Answers -/

section Answers

variable {miniz : Miniz} {cjson : CJson} {now : Int64} {left right : Bytes}

/-- A lookup prints the visible row. -/
theorem runGet_output (miniz : Miniz) (key : CStr) (now : Int64) (db : Bytes) :
    (runGet miniz key now db).output =
      (visible (rowsOf miniz db) now key).elim [] fun row => row.value.bytes ++ [lf] := by
  have ⟨index, loaded, answers⟩ := exists_loadLatestRows miniz db
  have same := answers key
  rw [runGet, loaded, visible, ← same]
  cases found : index.get key with
  | none => simp [found]
  | some row => cases live : row.isLive now <;> simp [found, live, Option.filter_some]

/-- A listing prints each visible row with the prefix once. -/
theorem printRows_shows (start : Option CStr) (now : Int64) (db : Bytes) :
    ∃ shown : List Row,
      (printRows miniz start now db).output =
          shown.flatMap (fun row => printedRow row.key row.value) ∧
        shown.Nodup ∧ ∀ row, row ∈ shown ↔
          visible (rowsOf miniz db) now row.key = some row ∧
            (start.all fun start => row.key.startsWith start) = true := by
  have ⟨index, loaded, answers⟩ := exists_loadLatestRows miniz db
  refine ⟨_, by rw [printRows, loaded], ?_, ?_⟩
  · exact ((List.Nodup.of_map Row.key index.rows_nodup).filter _).filter _
  · intro row
    rw [List.mem_filter, List.mem_filter, index.mem_rows, answers, visible, Option.filter_eq_some_iff]

/-- Lines of one text behind the other. -/
theorem lines_flatMap_printedRow (rows : List Row) :
    lines (rows.flatMap fun row => printedRow row.key row.value) =
      rows.flatMap fun row => lines (printedRow row.key row.value) := by
  induction rows with
  | nil => rfl
  | cons row rows ih =>
    have whole : Complete (printedRow row.key row.value) := by
      have shape : printedRow row.key row.value =
          (row.key.bytes ++ tab :: row.value.bytes) ++ [lf] := by simp [printedRow]
      rw [shape]
      exact complete_snoc _
    rw [List.flatMap_cons, List.flatMap_cons, lines_append whole, ih]

/-- Files that show the same rows give the same lookups and, up to the order, the same lines. -/
theorem Alike.answers (alike : Alike miniz now left right) {run : Invocation} (time : run.now = now)
    (queries : run.Queries) :
    (lines (clipStoreMain miniz cjson run left).output).Perm
        (lines (clipStoreMain miniz cjson run right).output) ∧
      (∀ key, run.mode = .get key → (clipStoreMain miniz cjson run left).output =
        (clipStoreMain miniz cjson run right).output) := by
  have listing (start : Option CStr) : (lines (printRows miniz start now left).output).Perm
      (lines (printRows miniz start now right).output) := by
    have ⟨shown, text, distinct, mem⟩ := @printRows_shows miniz start now left
    have ⟨others, otherText, otherDistinct, otherMem⟩ := @printRows_shows miniz start now right
    have perm : shown.Perm others := by
      rw [List.perm_ext_iff_of_nodup distinct otherDistinct]
      intro row
      rw [mem, otherMem, alike.same]
    rw [text, otherText, lines_flatMap_printedRow, lines_flatMap_printedRow]
    exact perm.flatMap_right _
  have lookup (key : CStr) : (runGet miniz key now left).output =
      (runGet miniz key now right).output := by
    rw [runGet_output, runGet_output, alike.same]
  rw [clipStoreMain, clipStoreMain, time]
  cases parseTtl run.ttlArg with
  | none => exact ⟨List.Perm.refl _, fun _ _ => rfl⟩
  | some ttl =>
    cases mode : run.mode with
    | get key =>
      dsimp only
      rw [lookup key]
      exact ⟨List.Perm.refl _, fun _ _ => rfl⟩
    | list => exact ⟨listing none, fun _ other => by contradiction⟩
    | withPrefix start => exact ⟨listing (some start), fun _ other => by contradiction⟩
    | compact =>
      have queries := queries.2
      rw [mode] at queries
      contradiction
    | append | set | delete =>
      have quiet := queries.1
      rw [mode] at quiet
      exact absurd trivial quiet

end Answers

/-- In every prompt run whose compactions read a time no later than a query did, from a file of
whole lines: the query prints the lines it would have printed alone on the database that the
writers among some processes leave one after the other, as if nothing had ever been compacted. A
listing may have them in another order. The processes are an initial part of the granted ones, and
have among them every one that had changed the database and exited before the query opened it. -/
theorem query_ignores_compactions {ι : Type} [DecidableEq ι] {miniz : Miniz}
    (lawful : miniz.Lawful) (cjson : CJson) (runs : ι → Invocation) (files : FileSystem DbName)
    (complete : Complete (files.content .db)) (reader : ι) (queries : (runs reader).Queries)
    (early : ∀ process, (runs process).mode.compacts = true →
      (runs process).now ≤ (runs reader).now)
    (before later : List (ι × Act)) (opening last : World ι)
    (prompt : Runs.Along (World.step miniz cjson runs) (World.Prompt cjson runs)
      (World.initial files) (before ++ (reader, .advance) :: later))
    (reached : Runs.run (World.step miniz cjson runs) (World.initial files) before = some opening)
    (waiting : opening.pc reader = .start)
    (ran : Runs.run (World.step miniz cjson runs) opening ((reader, .advance) :: later) =
      some last)
    (printed : Bytes)
    (prints : (last.pc reader).answer miniz cjson (runs reader) last.files = some printed) :
    ∃ served rest, last.granted = served ++ rest ∧
      (∀ process ∈ opening.granted, opening.Finished cjson runs process → process ∈ served) ∧
      (lines printed).Perm (lines (clipStoreMain miniz cjson (runs reader)
        (dbAfter miniz cjson ((served.map runs).filter fun run => !run.mode.compacts)
          (files.content .db))).output) ∧
      (∀ key, (runs reader).mode = .get key → printed = (clipStoreMain miniz cjson (runs reader)
        (dbAfter miniz cjson ((served.map runs).filter fun run => !run.mode.compacts)
          (files.content .db))).output) := by
  obtain ⟨served, rest, order, finished, answers⟩ :=
    exists_served queries prompt reached waiting ran prints
  have each : ∀ run ∈ served.map runs, run.mode.compacts = true → run.now ≤ (runs reader).now := by
    intro run member
    obtain ⟨process, _, same⟩ := List.mem_map.mp member
    rw [← same]
    exact early process
  have start : Alike miniz (runs reader).now (files.content .db) (files.content .db) :=
    ⟨complete, complete, fun _ => rfl⟩
  have alike := @alike_dbAfter miniz cjson _ _ _ lawful _ each start
  have same := @Alike.answers miniz cjson _ _ _ alike (runs reader) rfl queries
  rw [← answers]
  exact ⟨served, rest, order, finished, same.1, same.2⟩

/-- The reader of the renamed inode prints what the writer alone left. -/
theorem query_ignores_compactions_renamed :
    ∃ served rest,
      (partyEnd (partyEnd (World.initial noFiles) writerFirst)
          ((.reader, .advance) :: renamedUnderReader)).granted = served ++ rest ∧
        (∀ process ∈ (partyEnd (World.initial noFiles) writerFirst).granted,
          (partyEnd (World.initial noFiles) writerFirst).Finished oneClipJson parties process →
            process ∈ served) ∧
        (lines (ascii "v\n")).Perm (lines (clipStoreMain sampleMiniz oneClipJson (parties .reader)
          (dbAfter sampleMiniz oneClipJson ((served.map parties).filter fun run =>
            !run.mode.compacts) (noFiles.content .db))).output) ∧
        (∀ key, (parties .reader).mode = .get key →
          ascii "v\n" = (clipStoreMain sampleMiniz oneClipJson (parties .reader)
            (dbAfter sampleMiniz oneClipJson ((served.map parties).filter fun run =>
              !run.mode.compacts) (noFiles.content .db))).output) := by
  have early : ∀ process, (parties process).mode.compacts = true →
      (parties process).now ≤ (parties .reader).now := by
    intro process
    cases process with
    | writer | compactor | reader => decide
  exact query_ignores_compactions sampleMiniz_lawful oneClipJson parties noFiles (by decide)
    .reader ⟨id, rfl⟩ early writerFirst renamedUnderReader
    (partyEnd (World.initial noFiles) writerFirst)
    (partyEnd (partyEnd (World.initial noFiles) writerFirst)
      ((.reader, .advance) :: renamedUnderReader))
    (by decide +kernel) (Runs.run_eq_getD (by decide +kernel) _) (by decide +kernel)
    (Runs.run_eq_getD (by decide +kernel) _) (ascii "v\n") (by decide +kernel)

end StreamPipeline.Store
