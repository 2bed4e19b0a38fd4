import StreamPipeline.Lib.Pipes
import StreamPipeline.Pipeline.EndToEnd

/-!
# The three programs side by side

`stream_merge` prints into a pipe to `log_parse`, which prints into a pipe to `clip_store`, which
appends to the database. None of their calls fails. Whoever runs, however much a pipe holds, a
call moves and standard output is flushed, the database comes out as if each program had run on
the whole output of the one before.
-/

namespace StreamPipeline.Pipeline

open Codec Merge Parse Pipes Store

/-- The loop of `log_parse_main` in JSON Lines mode. -/
def logParseStage (cjson : CJson) (printItem : Item → Option CStr) (filter : Option Filter) :
    Stage Nat where
  start := 0
  handle number line :=
    (number + 1,
      match logFilterMatchJsonl cjson printItem (trimLine line) filter with
      | some true => (trimLine line).bytes ++ [lf]
      | _ => [])
  finish _ := []

/-- The loop of `clip_store_main` over standard input, which appends to the database. -/
def clipStoreStage (miniz : Miniz) (cjson : CJson) (ttl : Int64) (rowNow : Nat → Int64) :
    Stage Nat where
  start := 0
  handle number line :=
    (number + 1,
      match extractClip cjson line with
      | none => []
      | some (key, path) =>
        -- A row that cannot be built is a failing call.
        (appendDbRow miniz .none key path (expiration ttl (rowNow number))).getD [])
  finish _ := []

/-- `stream_merge` as far as its pipe can tell: it prints. -/
def streamMergeStage : Stage Nat := ⟨0, fun number _ => (number, []), fun _ => []⟩

/-- The three programs when they start, with the text `stream_merge` is going to print. -/
def pipelineStart (miniz : Miniz) (cjson : CJson) (printItem : Item → Option CStr)
    (filter : Option Filter) (ttl : Int64) (rowNow : Nat → Int64) (text db : Bytes) : Chain Nat :=
  .printer streamMergeStage text (.filter (logParseStage cjson printItem filter)
    (.filter (clipStoreStage miniz cjson ttl rowNow) (.sink db)))

/-- What `log_parse` prints line by line is what it prints. -/
theorem print_logParseStage (cjson : CJson) (printItem : Item → Option CStr)
    (filter : Option Filter) (number : Nat) (text : List Bytes) :
    (logParseStage cjson printItem filter).print number text =
      text.flatMap fun line =>
        match logFilterMatchJsonl cjson printItem (trimLine line) filter with
        | some true => (trimLine line).bytes ++ [lf]
        | _ => [] := by
  induction text generalizing number with
  | nil => rfl
  | cons line text ih =>
    rw [Stage.print, List.flatMap_cons]
    exact congrArg _ (ih (number + 1))

/-- The rows `clip_store` appends line by line are the rows it appends. -/
theorem appendClips_print (miniz : Miniz) (cjson : CJson) (ttl : Int64) (rowNow : Nat → Int64)
    (number : Nat) (text : List Bytes) (db : Bytes) :
    appendClips miniz cjson ttl rowNow number text db =
      ⟨0, [], db ++ (clipStoreStage miniz cjson ttl rowNow).print number text⟩ := by
  induction text generalizing number db with
  | nil =>
    have none : (clipStoreStage miniz cjson ttl rowNow).print number [] = [] := rfl
    rw [appendClips, none, List.append_nil]
  | cons line text ih =>
    rw [Stage.print, appendClips]
    cases found : extractClip cjson line with
    | none =>
      have handled : (clipStoreStage miniz cjson ttl rowNow).handle number line =
          (number + 1, []) := by simp only [clipStoreStage, found]
      rw [handled]
      exact ih (number + 1) db
    | some clip =>
      have handled : (clipStoreStage miniz cjson ttl rowNow).handle number line =
          (number + 1, rowLine clip.1.bytes (valueField miniz clip.2)
            (expiration ttl (rowNow number))) := by
        simp only [clipStoreStage, found, appendDbRow_none, Option.getD_some]
      rw [handled]
      simp only [appendDbRow_none, ih, List.append_assoc]

/-- In every interleaving of the three programs, with pipes of any capacity, reads and writes of any
size and any flushing: the number of calls is bounded by the lengths of the texts, the database is
always an initial part of the final one, and none waits for another for good. Where none can go on
all have exited, and the database is what `clip_store` makes of all that `log_parse` makes of all
that `stream_merge` prints. -/
theorem pipeline_settles (miniz : Miniz) (cjson : CJson) (printItem : Item → Option CStr)
    (filter : Option Filter) (ttlArg dbPath : CStr) (ttl : Int64)
    (given : parseTtl ttlArg = some ttl) (now : Int64) (rowNow : Nat → Int64) (text db : Bytes)
    (capacity : Nat) (positive : 0 < capacity) (events : List (Nat × Pipes.Act)) (last : Chain Nat)
    (ran : Runs.run (Chain.step capacity)
      (pipelineStart miniz cjson printItem filter ttl rowNow text db) events = some last) :
    ∃ stored,
      clipStoreMain miniz cjson ⟨.append (logParseJsonl cjson printItem filter text), ttlArg, dbPath,
        now, rowNow⟩ db = ⟨0, [], db ++ stored⟩ ∧
      events.length ≤ 5 + 2 * text.length + (lines text).length +
        2 * (logParseJsonl cjson printItem filter text).length +
        (lines (logParseJsonl cjson printItem filter text)).length + stored.length ∧
      last.content <+: db ++ stored ∧
      (last.Stuck capacity → last.Exited ∧ last.content = db ++ stored) := by
  have parsed : (logParseStage cjson printItem filter).print 0 (lines text) =
      logParseJsonl cjson printItem filter text := print_logParseStage cjson printItem filter 0 _
  let stored := (clipStoreStage miniz cjson ttl rowNow).print 0
    (lines (logParseJsonl cjson printItem filter text))
  have ⟨soundStore, answerStore, callsStore⟩ :=
    @Chain.filter_eq _ (clipStoreStage miniz cjson ttl rowNow) (.sink db) _ stored rfl
  have ⟨soundParse, answerParse, callsParse⟩ :=
    @Chain.filter_eq _ (logParseStage cjson printItem filter)
      (.filter (clipStoreStage miniz cjson ttl rowNow) (.sink db)) text _ parsed
  have ⟨sound, answer, calls⟩ := @Chain.printer_eq _ streamMergeStage text
    (.filter (logParseStage cjson printItem filter)
      (.filter (clipStoreStage miniz cjson ttl rowNow) (.sink db)))
  rw [callsParse, callsStore] at calls
  rw [answerParse, answerStore] at answer
  have ⟨bounded, front, ends⟩ :=
    Chain.settles positive (sound.mpr (soundParse.mpr (soundStore.mpr trivial))) ran
  refine ⟨stored, ?_, ?_, ?_, ?_⟩
  · rw [clipStoreMain, given]
    exact appendClips_print miniz cjson ttl rowNow 0 _ db
  · have total := bounded.trans (Nat.le_of_eq calls)
    rw [Chain.calls] at total
    omega
  · rw [answer] at front
    exact front
  · rw [answer] at ends
    exact ends

/-- One clip on its way to an empty database. -/
def clipStart : Chain Nat :=
  pipelineStart sampleMiniz sampleJson (fun _ => none) (logFilterParse defaultFilter) 300
    (fun _ => 100) (runEnd halfLine).merger.out []

/-- The clip is written in two parts, and `log_parse` holds it back until its end. -/
def clipEvents : List (Nat × Pipes.Act) :=
  [(0, .write 60), (1, .turn (.read 100)), (0, .write 4096), (1, .turn (.read 4096)),
    (1, .turn (.handle 0)), (0, .exit), (1, .turn .finish), (1, .write 4096), (1, .exit),
    (2, .turn (.read 4096)), (2, .turn (.handle 4096)), (2, .write 10)]

/-- The clip is partly written to the database. -/
theorem pipeline_settles_clip :
    ∃ stored,
      clipStoreMain sampleMiniz sampleJson ⟨.append (logParseJsonl sampleJson (fun _ => none)
        (logFilterParse defaultFilter) (runEnd halfLine).merger.out), .ofBytes (ascii "300"),
          .ofBytes (ascii "clips.db"), 100, fun _ => 100⟩ [] = ⟨0, [], [] ++ stored⟩ ∧
      clipEvents.length ≤ 5 + 2 * (runEnd halfLine).merger.out.length +
        (lines (runEnd halfLine).merger.out).length +
        2 * (logParseJsonl sampleJson (fun _ => none) (logFilterParse defaultFilter)
          (runEnd halfLine).merger.out).length +
        (lines (logParseJsonl sampleJson (fun _ => none) (logFilterParse defaultFilter)
          (runEnd halfLine).merger.out)).length + stored.length ∧
      ((Runs.run (Chain.step 4096) clipStart clipEvents).getD clipStart).content <+:
        [] ++ stored ∧
      (((Runs.run (Chain.step 4096) clipStart clipEvents).getD clipStart).Stuck 4096 →
        ((Runs.run (Chain.step 4096) clipStart clipEvents).getD clipStart).Exited ∧
          ((Runs.run (Chain.step 4096) clipStart clipEvents).getD clipStart).content =
            [] ++ stored) :=
  pipeline_settles sampleMiniz sampleJson (fun _ => none) (logFilterParse defaultFilter)
    (.ofBytes (ascii "300")) (.ofBytes (ascii "clips.db")) 300 (by decide) 100 (fun _ => 100)
    (runEnd halfLine).merger.out [] 4096 (by decide) clipEvents _
    (Runs.run_eq_getD (by decide +kernel) _)

end StreamPipeline.Pipeline
