import StreamPipeline.Merge.Keys
import StreamPipeline.Merge.Output
import StreamPipeline.Parse.Compose
import StreamPipeline.Pipeline.Downstream
import StreamPipeline.Store.Observe

/-!
# From the meta file to a lookup

The three programs in a row: what `stream_merge` prints when it returns goes through the default
filter of `log_parse` as it is, and `clip_store` appends one row for each clip. A lookup then
answers with the last clip that starts in the second asked for, and as before everywhere else.
-/

namespace StreamPipeline.Pipeline

open Codec Merge Parse Store
open Json (Plain)

/-- The rows of clips printed from a line number on. -/
def clipRows (session : Session) (ttl : Int64) (rowNow : Nat → Int64) :
    Nat → List ClipRecord → List Row
  | _, [] => []
  | number, clip :: later =>
    ((clipPath clip session.src session.session).map fun path =>
      ⟨clipKey session.session clip, path, expiration ttl (rowNow number)⟩).toList ++
        clipRows session ttl rowNow (number + 1) later

/-- What a lookup prints of a row. -/
def answerText (now : Int64) (row : Row) : Bytes :=
  if row.isLive now then row.value.bytes ++ [lf] else []

/-- A lookup prints the latest row while it is live. -/
theorem runGet_latest (miniz : Miniz) (key : CStr) (now : Int64) (db : Bytes) :
    (runGet miniz key now db).output =
      (latest (rowsOf miniz db) key).elim [] (answerText now) := by
  rw [runGet_output, visible]
  cases latest (rowsOf miniz db) key with
  | none => rfl
  | some row =>
    rw [Option.filter_some, Option.elim_some, answerText]
    split <;> rfl

/-- Every row of clips has the key and the path of one of them. -/
theorem mem_clipRows {session : Session} {ttl : Int64} {rowNow : Nat → Int64} {number : Nat}
    {clips : List ClipRecord} {row : Row}
    (member : row ∈ clipRows session ttl rowNow number clips) :
    ∃ clip ∈ clips, row.key = clipKey session.session clip := by
  induction clips generalizing number with
  | nil => contradiction
  | cons clip later ih =>
    rcases List.mem_append.mp member with here | deeper
    · have ⟨path, _, same⟩ := Option.map_eq_some_iff.mp (Option.mem_toList.mp here)
      exact ⟨clip, List.mem_cons_self, by rw [← same]⟩
    · have ⟨other, inside, same⟩ := ih deeper
      exact ⟨other, List.mem_cons_of_mem clip inside, same⟩

/-- The rows of two lists of clips. -/
theorem clipRows_append (session : Session) (ttl : Int64) (rowNow : Nat → Int64) (number : Nat)
    (earlier later : List ClipRecord) :
    clipRows session ttl rowNow number (earlier ++ later) =
      clipRows session ttl rowNow number earlier ++
        clipRows session ttl rowNow (number + earlier.length) later := by
  induction earlier generalizing number with
  | nil => rfl
  | cons clip earlier ih =>
    have count : number + (clip :: earlier).length = number + 1 + earlier.length := by
      rw [List.length_cons]
      omega
    rw [List.cons_append, clipRows, clipRows, ih, count, List.append_assoc]

/-- The latest row of a key is that of the last clip with the key. -/
theorem latest_clipRows {session : Session} {ttl : Int64} {rowNow : Nat → Int64} {number : Nat}
    {earlier later : List ClipRecord} {clip : ClipRecord} {path : CStr}
    (built : clipPath clip session.src session.session = some path)
    (last : ∀ other ∈ later, clipKey session.session other ≠ clipKey session.session clip) :
    latest (clipRows session ttl rowNow number (earlier ++ clip :: later))
        (clipKey session.session clip) =
      some ⟨clipKey session.session clip, path,
        expiration ttl (rowNow (number + earlier.length))⟩ := by
  have gone : latest (clipRows session ttl rowNow (number + earlier.length + 1) later)
      (clipKey session.session clip) = none := by
    apply latest_eq_none
    intro row member
    have ⟨other, inside, same⟩ := mem_clipRows member
    rw [same]
    exact last other inside
  rw [clipRows_append, clipRows, built, latest_append, latest_append, gone]
  simp [latest_singleton]

/-! ## Lines -/

section Lines

variable {cjson : CJson} {strtod : Bytes → Double} (exact : cjson.Exact strtod)
  {session : Session} (plain : Plain session.session.bytes) (plainSrc : Plain session.src.bytes)

include exact plain plainSrc

/-- The line of a clip with a path is a trimmed object that passes the default filter. -/
theorem emissionText_object (printItem : Item → Option CStr) {emission : Action × ClipRecord}
    (built : (clipPath emission.2 session.src session.session).isSome = true) :
    emissionText cjson session emission =
        (trimLine (emissionText cjson session emission)).bytes ++ [lf] ∧
      Trimmed (trimLine (emissionText cjson session emission)) ∧
      Passes cjson printItem (logFilterParse defaultFilter)
        (trimLine (emissionText cjson session emission)) := by
  obtain ⟨path, built⟩ := Option.isSome_iff_exists.mp built
  have plainPath := (plain_clipPath built).mpr ⟨plainSrc, plain⟩
  have text : emissionText cjson session emission =
      clipText cjson emission.2 session.session path (emission.1 = .emitComplete) := by
    rw [emissionText, built]
    rfl
  have body := clipText_object cjson emission.2 (emission.1 = .emitComplete) plain plainPath
  have trimmed := trimLine_clipText cjson emission.2 (emission.1 = .emitComplete) plain plainPath
  have passes := clipText_matched exact printItem emission.2 (emission.1 = .emitComplete) plain
    plainPath
  obtain ⟨front, split, inner⟩ := (readsBack_of_plain exact emission.2 (emission.1 = .emitComplete)
    plain plainPath).oneLine
  have same := List.append_cancel_right (split.symm.trans body)
  rw [text]
  refine ⟨?_, ?_, passes⟩
  · rw [trimmed]
    exact body
  · exact {
      front := by rw [trimmed]; rfl
      back := by
        rw [trimmed, ← List.cons_append]
        exact List.rdropWhile_concat_neg _ _ _ (by decide)
      inner := by rwa [trimmed, ← same] }

/-- The text of clips has one line for each, and the default filter prints it as it is. -/
theorem emissionTexts_through (printItem : Item → Option CStr)
    {emissions : List (Action × ClipRecord)}
    (paths : ∀ emission ∈ emissions,
      (clipPath emission.2 session.src session.session).isSome = true) :
    lines (emissions.flatMap (emissionText cjson session)) =
        emissions.map (emissionText cjson session) ∧
      logParseJsonl cjson printItem (logFilterParse defaultFilter)
          (emissions.flatMap (emissionText cjson session)) =
        emissions.flatMap (emissionText cjson session) := by
  let objects := emissions.map fun emission => trimLine (emissionText cjson session emission)
  have good : ∀ object ∈ objects, Trimmed object ∧
      Passes cjson printItem (logFilterParse defaultFilter) object := by
    intro object member
    have ⟨emission, inside, same⟩ := List.mem_map.mp member
    rw [← same]
    exact (emissionText_object exact plain plainSrc printItem (paths emission inside)).2
  have trimmed : ∀ object ∈ objects, Trimmed object := fun object member => (good object member).1
  have texts : emissions.map (emissionText cjson session) =
      objects.map fun object => object.bytes ++ [lf] := by
    rw [List.map_map]
    apply List.map_congr_left
    intro emission inside
    exact (emissionText_object exact plain plainSrc printItem (paths emission inside)).1
  have out : emissions.flatMap (emissionText cjson session) = printed objects := by
    rw [List.flatMap_def, texts, printed, List.flatMap_def]
  constructor
  · rw [out, texts, lines_printed trimmed]
  · have kept : objects.filter (Passes cjson printItem (logFilterParse defaultFilter)) = objects := by
      apply List.filter_eq_self.mpr
      intro object member
      exact decide_eq_true (good object member).2
    rw [out, logParseJsonl_eq, trimLine_lines_printed trimmed, kept]

/-- The ingest loop writes the rows of the clips. -/
theorem clipWrites_emissionTexts (short : session.session.bytes.length < 128) (ttl : Int64)
    (rowNow : Nat → Int64) (number : Nat) {emissions : List (Action × ClipRecord)}
    (printable : ∀ emission ∈ emissions, Printable emission.2)
    (paths : ∀ emission ∈ emissions,
      (clipPath emission.2 session.src session.session).isSome = true) :
    ((clipWrites cjson rowNow number (emissions.map (emissionText cjson session))).map fun write =>
        (⟨write.key, write.value, expiration ttl write.time⟩ : Row)) =
      clipRows session ttl rowNow number (emissions.map Prod.snd) := by
  induction emissions generalizing number with
  | nil => rfl
  | cons emission later ih =>
    have ⟨path, built⟩ := Option.isSome_iff_exists.mp (paths emission List.mem_cons_self)
    have plainPath := (plain_clipPath built).mpr ⟨plainSrc, plain⟩
    have fields := extractClip_clipText exact emission.2 (emission.1 = .emitComplete) plain
      plainPath (printable emission List.mem_cons_self) (length_clipPath built)
    have text : emissionText cjson session emission =
        clipText cjson emission.2 session.session path (emission.1 = .emitComplete) := by
      rw [emissionText, built]
      rfl
    have rest := ih (number + 1)
      (fun other member => printable other (List.mem_cons_of_mem emission member))
      fun other member => paths other (List.mem_cons_of_mem emission member)
    rw [if_pos short, ← text] at fields
    rw [List.map_cons, List.map_cons, clipWrites, fields, clipRows, built]
    exact congrArg _ rest

end Lines

/-! ## The whole way -/

/-- Two clips have the same key exactly when they start in the same second. -/
theorem clipKey_inj {session : CStr} {first second : ClipRecord} :
    clipKey session first = clipKey session second ↔ first.tsSec = second.tsSec := by
  have seconds (clip : ClipRecord) : clip.tsSec.toInt = clip.startTsMs.toInt.tdiv 1000 :=
    Int64.toInt_div_of_ne_right _ _ (by decide)
  rw [clipKey_eq_iff, ← seconds, ← seconds, Int64.toInt_inj]

/-- The key of a clip of a plain session is clean. -/
theorem clean_clipKey {session : CStr} (plain : Plain session.bytes) (clip : ClipRecord) :
    Clean (clipKey session clip) := by
  have colon : (CStr.ofBytes (ascii ":")).bytes = ascii ":" := by decide
  have plainKey : Plain (clipKey session clip).bytes := by
    simp only [clipKey, ingestKey, CStr.bytes_append, CStr.ofWord, colon, Json.plain_append]
    exact ⟨⟨plain, by decide⟩, Json.plain_decimal _⟩
  have control {byte : UInt8} (small : byte < 32) : byte ∉ (clipKey session clip).bytes :=
    fun member => absurd small (UInt8.not_lt.mpr (plainKey byte member).2.2)
  exact ⟨control (by decide), control (by decide), control (by decide)⟩

/-- Emitted clips, with and without their actions. -/
theorem emissions_snd (trace : List (Call × Answer)) :
    (emissions trace).map Prod.snd = emitted trace := by
  induction trace with
  | nil => rfl
  | cons event rest ih =>
    rw [emissions_cons, emitted_cons, List.map_append, ih]
    cases event.2.out <;> rfl

/-- The clips of a run reached the database. -/
structure Delivered (miniz : Miniz) (session : Session) (ttl : Int64) (rowNow : Nat → Int64)
    (clips : List ClipRecord) (before after : Bytes) : Prop where
  /-- The last clip of a second is found until its row expires. -/
  found : ∀ earlier clip later, clips = earlier ++ clip :: later →
    (∀ other ∈ later, other.tsSec ≠ clip.tsSec) →
    ∃ path, clipPath clip session.src session.session = some path ∧
      ∀ now, (runGet miniz (clipKey session.session clip) now after).output =
        answerText now ⟨clipKey session.session clip, path,
          expiration ttl (rowNow earlier.length)⟩
  /-- Other keys answer as before. -/
  kept : ∀ key, (∀ clip ∈ clips, clipKey session.session clip ≠ key) →
    ∀ now, (runGet miniz key now after).output = (runGet miniz key now before).output

/-- Rows of clips behind a complete file deliver them. -/
theorem delivered_of_rows {miniz : Miniz} (lawful : miniz.Lawful) {session : Session}
    (plain : Plain session.session.bytes) (ttl : Int64) (rowNow : Nat → Int64)
    {clips : List ClipRecord}
    (paths : ∀ clip ∈ clips, (clipPath clip session.src session.session).isSome = true)
    {db : Bytes} (complete : Complete db) :
    Delivered miniz session ttl rowNow clips db
      (db ++ rowLines miniz (clipRows session ttl rowNow 0 clips)) := by
  have clean : ∀ row ∈ clipRows session ttl rowNow 0 clips, Clean row.key := by
    intro row member
    have ⟨clip, _, same⟩ := mem_clipRows member
    rw [same]
    exact clean_clipKey plain clip
  have rows (key : CStr) : latest (rowsOf miniz
      (db ++ rowLines miniz (clipRows session ttl rowNow 0 clips))) key =
        (latest (clipRows session ttl rowNow 0 clips) key).or (latest (rowsOf miniz db) key) := by
    rw [rowsOf_append miniz complete, rowsOf_rowLines lawful clean, latest_append]
  constructor
  · intro earlier clip later split apart
    have ⟨path, built⟩ := Option.isSome_iff_exists.mp (paths clip (by simp [split]))
    refine ⟨path, built, fun now => ?_⟩
    have newest := @latest_clipRows session ttl rowNow 0 earlier later clip path built
      fun other member same => apart other member (clipKey_inj.mp same)
    rw [← split, Nat.zero_add] at newest
    rw [runGet_latest, rows, newest]
    rfl
  · intro key foreign now
    have none : latest (clipRows session ttl rowNow 0 clips) key = none := by
      apply latest_eq_none
      intro row member
      have ⟨clip, inside, same⟩ := mem_clipRows member
      rw [same]
      exact foreign clip inside
    rw [runGet_latest, runGet_latest, rows, none, Option.none_or]

/-- In every attentive interleaving of the writer and `stream_merge` that ends with the status 0,
for a session id of less than 128 bytes and a source directory that need no escapes: what was
printed accounts for the meta file, and after it went through the default filter of `log_parse`
into `clip_store`, lookups find the last clip of every second and all other keys as before. -/
theorem returned_clips_found (miniz : Miniz) (lawful : miniz.Lawful) (cjson : CJson)
    (strtod : Bytes → Double) (exact : cjson.Exact strtod) (printItem : Item → Option CStr)
    (session : Session) (plain : Plain session.session.bytes) (plainSrc : Plain session.src.bytes)
    (short : session.session.bytes.length < 128) (events : List Event) (last : World)
    (ran : Runs.run (World.step cjson session) World.initial events = some last)
    (timely : ∀ event ∈ events, event.Timely)
    (attentive : Runs.Along (World.step cjson session) World.Attentive World.initial events)
    (returned : last.merger.pc = .returned 0) (ttlArg dbPath : CStr) (ttl : Int64)
    (given : parseTtl ttlArg = some ttl) (now : Int64) (rowNow : Nat → Int64) (db : Bytes)
    (complete : Complete db) :
    ∃ calls stored, Account cjson session last.directory.fileLines last.merger.out calls ∧
      clipStoreMain miniz cjson ⟨.append (logParseJsonl cjson printItem
        (logFilterParse defaultFilter) last.merger.out), ttlArg, dbPath, now, rowNow⟩ db =
          ⟨0, [], stored⟩ ∧
      Delivered miniz session ttl rowNow
        (emitted (Fsm.reset.trace (calls ++ [.flushFinal]))) db stored := by
  have ⟨accounted, holds⟩ := accounted_of_run ran timely attentive
  have ⟨calls, account⟩ := accounted.account holds returned
  have clips := emissions_snd (Fsm.reset.trace (calls ++ [.flushFinal]))
  have inside {emission : Action × ClipRecord}
      (member : emission ∈ emissions (Fsm.reset.trace (calls ++ [.flushFinal]))) :
      emission.2 ∈ emitted (Fsm.reset.trace (calls ++ [.flushFinal])) :=
    clips ▸ List.mem_map_of_mem member
  have parsed : ∀ call ∈ calls ++ [.flushFinal], ParsedCall call := by
    intro call member
    have made := (account.made call member).1
    cases call with
    | processRecord rec clipMs nowMs => exact made.1
    | checkIdle | flushFinal => trivial
  have printable := emitted_printable (calls ++ [.flushFinal]) parsed startsInRange_reset
  have ⟨split, through⟩ := emissionTexts_through exact plain plainSrc printItem
    fun emission member => account.paths emission.2 (inside member)
  have written := clipWrites_emissionTexts exact plain plainSrc short ttl rowNow 0
    (fun emission member => printable emission.2 (inside member))
    fun emission member => account.paths emission.2 (inside member)
  refine ⟨calls, _, account, ?_, delivered_of_rows lawful plain ttl rowNow account.paths complete⟩
  rw [account.output, through, clipStoreMain, given]
  simp only [appendClips_eq]
  rw [split, written, clips]

/-- A clip of a line read in two halves, stored in an empty database. -/
theorem returned_clips_found_halfLine :
    ∃ calls stored, Account sampleJson shortSession (runEnd halfLine).directory.fileLines
        (runEnd halfLine).merger.out calls ∧
      clipStoreMain sampleMiniz sampleJson ⟨.append (logParseJsonl sampleJson (fun _ => none)
        (logFilterParse defaultFilter) (runEnd halfLine).merger.out), .ofBytes (ascii "300"),
          .ofBytes (ascii "clips.db"), 100, fun _ => 100⟩ [] = ⟨0, [], stored⟩ ∧
      Delivered sampleMiniz shortSession 300 (fun _ => 100)
        (emitted (Fsm.reset.trace (calls ++ [.flushFinal]))) [] stored :=
  returned_clips_found sampleMiniz sampleMiniz_lawful sampleJson sampleStrtod sampleJson_exact
    (fun _ => none) shortSession (by decide) (by decide) (by decide) halfLine (runEnd halfLine)
    (Runs.run_eq_getD (by decide +kernel) _) (by decide +kernel) (by decide +kernel)
    (by decide +kernel) (.ofBytes (ascii "300")) (.ofBytes (ascii "clips.db")) 300 (by decide) 100
    (fun _ => 100) [] complete_nil

end StreamPipeline.Pipeline
