import StreamPipeline.Merge.Reader
import StreamPipeline.Parse.Main
import StreamPipeline.Store.Frame

/-!
# A clip through the pipeline

`stream_merge` prints a clip, `log_parse` passes it by its default filter, and `clip_store`
appends a row for it. The three programs share no buffer size: the ingest loop reads the session
id into 128 bytes, so the line of a longer session id is skipped although all three succeed.
-/

namespace StreamPipeline.Pipeline

open Codec Merge Parse Store
open Json (Plain)

/-! ## The clips of a run -/

/-- The record of the call comes from the parser; the clock may read anything. -/
def ParsedCall : Call → Prop
  | .processRecord rec _ _ => rec.Parsed
  | _ => True

instance : (call : Call) → Decidable (ParsedCall call)
  | .processRecord rec _ _ => inferInstanceAs (Decidable rec.Parsed)
  | .checkIdle _ _ => inferInstanceAs (Decidable True)
  | .flushFinal => inferInstanceAs (Decidable True)

/-- An open clip starts at the time of a parsed record. -/
def StartsInRange (fsm : Fsm) : Prop :=
  fsm.active = true → fsm.startTsMs.toInt.natAbs ≤ maxSafeInteger

/-- No clip is open at the start. -/
theorem startsInRange_reset : StartsInRange Fsm.reset := by
  intro opened
  contradiction

/-- A snapshot of an open clip in range. -/
structure Printable (clip : ClipRecord) : Prop where
  active : clip.active = true
  start : clip.startTsMs.toInt.natAbs ≤ maxSafeInteger

/-- A call keeps the start in range, and what it emits is printable. -/
theorem answer_printable {fsm : Fsm} {call : Call} (range : StartsInRange fsm)
    (parsed : ParsedCall call) :
    StartsInRange (fsm.answer call).fsm ∧ ∀ clip ∈ (fsm.answer call).out, Printable clip := by
  have snapshot (opened : fsm.active = true) :
      ∀ clip ∈ some fsm.snapshotClip, Printable clip := by
    rintro clip ⟨⟩
    exact ⟨opened, range opened⟩
  have silent : ∀ clip ∈ (none : Option ClipRecord), Printable clip := by simp
  cases call with
  | processRecord rec clipMs nowMs =>
    have here : rec.Parsed := parsed
    have fresh : StartsInRange (Fsm.startClip rec nowMs) := fun _ => here.tsMs
    have rule := processRecord_rule fsm rec clipMs nowMs here.valid
    rw [Fsm.answer]
    generalize fsm.processRecord rec clipMs nowMs = answer at rule ⊢
    cases rule with
    | start => exact ⟨fresh, silent⟩
    | late => exact ⟨range, silent⟩
    | gap opened => exact ⟨fresh, snapshot opened⟩
    | window opened => exact ⟨fresh, snapshot opened⟩
    | append => exact ⟨range, silent⟩
  | checkIdle idleMs nowMs =>
    have rule := checkIdle_rule fsm idleMs nowMs
    rw [Fsm.answer]
    generalize fsm.checkIdle idleMs nowMs = answer at rule ⊢
    cases rule with
    | keep => exact ⟨range, silent⟩
    | expire opened => exact ⟨startsInRange_reset, snapshot opened⟩
  | flushFinal =>
    have rule := flushFinal_rule fsm
    rw [Fsm.answer]
    generalize fsm.flushFinal = answer at rule ⊢
    cases rule with
    | keep => exact ⟨range, silent⟩
    | emit opened => exact ⟨startsInRange_reset, snapshot opened⟩

/-- Every clip a run emits is printable. -/
theorem emitted_printable (calls : List Call) (parsed : ∀ call ∈ calls, ParsedCall call)
    {fsm : Fsm} (range : StartsInRange fsm) :
    ∀ clip ∈ emitted (fsm.trace calls), Printable clip := by
  induction calls generalizing fsm with
  | nil => simp [Fsm.trace, emitted]
  | cons call calls ih =>
    obtain ⟨kept, printable⟩ := answer_printable range (parsed call List.mem_cons_self)
    have later := ih (fun other member => parsed other (List.mem_cons_of_mem _ member)) kept
    intro clip member
    rw [emitted, Fsm.trace, List.filterMap_cons] at member
    split at member
    · exact later clip member
    · rename_i out found
      rcases List.mem_cons.mp member with rfl | deeper
      · exact printable clip found
      · exact later clip deeper

/-- The seconds of a printable clip are exact in a double. -/
theorem Printable.tsSec {clip : ClipRecord} (printable : Printable clip) :
    clip.tsSec.toInt.natAbs < 2 ^ 53 := by
  have truncated : clip.tsSec.toInt = clip.startTsMs.toInt.tdiv 1000 :=
    Int64.toInt_div_of_ne_right _ _ (by decide)
  have smaller := Int.natAbs_tdiv_le_natAbs clip.startTsMs.toInt 1000
  have bound := printable.start
  rw [truncated]
  rw [maxSafeInteger] at bound
  omega

/-! ## The consumers -/

/-- Whatever surrounds the line, `log_parse` passes it on and `clip_store` appends its row. -/
structure AcceptedDownstream (miniz : Miniz) (cjson : CJson) (printItem : Item → Option CStr)
    (line : Bytes) (key path : CStr) : Prop where
  /-- The default filter matches the trimmed line. -/
  matched : logFilterMatchJsonl cjson printItem (trimLine line) (logFilterParse defaultFilter) =
    some true
  /-- The line is printed unchanged. -/
  passed : ∀ before after, Complete before →
    logParseJsonl cjson printItem (logFilterParse defaultFilter) (before ++ line ++ after) =
      logParseJsonl cjson printItem (logFilterParse defaultFilter) before ++ line ++
        logParseJsonl cjson printItem (logFilterParse defaultFilter) after
  /-- The three fields are extracted. -/
  extracted : extractClip cjson line = some (key, path)
  /-- The row is appended behind the rows of the lines before it. -/
  stored : ∀ ttl rowNow before after db, Complete before →
    appendClips miniz cjson ttl rowNow 0 (lines (before ++ line ++ after)) db =
      appendClips miniz cjson ttl rowNow ((lines before).length + 1) (lines after)
        ((appendClips miniz cjson ttl rowNow 0 (lines before) db).db ++
          rowLine key.bytes (valueField miniz path)
            (expiration ttl (rowNow (lines before).length)))

/-- The ingest loop over two lists of lines. -/
theorem appendClips_append (miniz : Miniz) (cjson : CJson) (ttl : Int64) (rowNow : Nat → Int64)
    (number : Nat) (first second : List Bytes) (db : Bytes) :
    appendClips miniz cjson ttl rowNow number (first ++ second) db =
      appendClips miniz cjson ttl rowNow (number + first.length) second
        (appendClips miniz cjson ttl rowNow number first db).db := by
  induction first generalizing number db with
  | nil => rfl
  | cons line first ih =>
    have count : number + (line :: first).length = number + 1 + first.length := by
      rw [List.length_cons]
      omega
    rw [count, List.cons_append]
    cases fields : extractClip cjson line with
    | none =>
      simp only [appendClips, fields]
      exact ih (number + 1) db
    | some clip =>
      simp only [appendClips, fields, appendDbRow_none]
      exact ih (number + 1) _

/-- A whole line in the middle of a text. -/
theorem lines_around {before body : Bytes} (complete : Complete before) (inner : lf ∉ body)
    (after : Bytes) :
    lines (before ++ (body ++ [lf]) ++ after) = lines before ++ (body ++ [lf]) :: lines after := by
  have shape : before ++ (body ++ [lf]) ++ after = before ++ (body ++ lf :: after) := by simp
  rw [shape, lines_append complete, lines_cons inner]

/-- A line that is its own trimmed text, matches and has its fields is accepted downstream. -/
theorem accepted_of_line (miniz : Miniz) (cjson : CJson) (printItem : Item → Option CStr)
    {body : Bytes} {key path : CStr} (inner : lf ∉ body)
    (trimmed : (trimLine (body ++ [lf])).bytes = body)
    (matched : logFilterMatchJsonl cjson printItem (trimLine (body ++ [lf]))
      (logFilterParse defaultFilter) = some true)
    (extracted : extractClip cjson (body ++ [lf]) = some (key, path)) :
    AcceptedDownstream miniz cjson printItem (body ++ [lf]) key path where
  matched := matched
  passed before after complete := by
    unfold logParseJsonl
    rw [lines_around complete inner, List.flatMap_append, List.flatMap_cons]
    simp only [matched, trimmed, List.append_assoc]
  extracted := extracted
  stored ttl rowNow before after db complete := by
    rw [lines_around complete inner, appendClips_append, Nat.zero_add]
    simp only [appendClips, extracted, appendDbRow_none]

section Line

variable {cjson : CJson} {strtod : Bytes → Double} (exact : cjson.Exact strtod)
  (printItem : Item → Option CStr) (clip : ClipRecord) {session path : CStr} (complete : Bool)
  (plain : Plain session.bytes) (plainPath : Plain path.bytes)

variable (cjson) in
/-- The line is its object and a line feed. -/
theorem clipText_object : clipText cjson clip session path complete =
    123 :: (membersText cjson clip complete plain plainPath ++ [125]) ++ [lf] := by
  rw [clipText_members cjson clip session path complete plain plainPath]
  simp

variable (cjson) in
/-- The trimmed line is the object. -/
theorem trimLine_clipText : (trimLine (clipText cjson clip session path complete)).bytes =
    123 :: (membersText cjson clip complete plain plainPath ++ [125]) := by
  have live := zero_notMem_clipText cjson clip session path complete
  rw [clipText_object cjson clip complete plain plainPath, List.mem_append, not_or] at live
  rw [clipText_object cjson clip complete plain plainPath]
  exact trimLine_body rfl (by decide) (by decide) live.1

include exact plain plainPath

/-- The default filter matches the trimmed line. -/
theorem clipText_matched :
    logFilterMatchJsonl cjson printItem (trimLine (clipText cjson clip session path complete))
      (logFilterParse defaultFilter) = some true := by
  have shape := trimLine_clipText cjson clip complete plain plainPath
  obtain ⟨more, parsed⟩ := parseObject_members exact clip complete plain plainPath shape rfl
  have found := getItem_members exact clip complete plain plainPath shape rfl [] typeField _ rfl
    (by decide)
  have object : jsonlIsObject cjson (trimLine (clipText cjson clip session path complete)) =
      true := by
    rw [jsonlIsObject, parsed]
    rfl
  have text : jsonlGetScalarText cjson printItem
      (trimLine (clipText cjson clip session path complete)) (.ofBytes (ascii "type")) 1024 =
        some (.ofBytes (ascii "clip")) := by
    rw [typeField, itemOf] at found
    rw [jsonlGetScalarText, found]
    exact if_neg (by decide)
  rw [logFilterParse_defaultFilter, logFilterMatchJsonl, if_pos object]
  simp only [clipFilter, text, Option.map_some, FilterOperator.holds, decide_true]

/-- The ingest loop finds the fields exactly when its buffer holds the session id. -/
theorem extractClip_clipText (printable : Printable clip) (fits : path.bytes.length < pathMax) :
    extractClip cjson (clipText cjson clip session path complete) =
      if session.bytes.length < 128 then some (ingestKey session clip.tsSec, path) else none := by
  have back := readsBack_of_plain exact clip complete plain plainPath
  have ts := back.ts printable.tsSec
  have artifact := back.path pathMax fits
  by_cases short : session.bytes.length < 128
  · rw [extractClip, if_pos short]
    simp only [back.session 128 short, ts, artifact]
  · rw [extractClip, if_neg short]
    have whole := CStr.bytes_ofBytes (zero_notMem_clipText cjson clip session path complete)
    have found := getItem_members exact clip complete plain plainPath
      (whole.trans (clipText_members cjson clip session path complete plain plainPath))
      (by decide) [typeField] (textField (ascii "session_id") session.bytes (by decide) plain) _ rfl
      (show CStr.ofBytes (ascii "session_id") ∉ [CStr.ofBytes (ascii "type")] by decide)
    rw [textField, itemOf, CStr.ofBytes_bytes] at found
    have cut : jsonlGetString cjson (.ofBytes (clipText cjson clip session path complete))
        (.ofBytes (ascii "session_id")) 128 = none := by
      rw [jsonlGetString, found]
      exact if_pos (Nat.not_lt.mp short)
    simp only [cut]

end Line

/-- A built path fits the buffer of the ingest loop. -/
theorem length_clipPath {clip : ClipRecord} {src session path : CStr}
    (built : clipPath clip src session = some path) : path.bytes.length < pathMax := by
  unfold clipPath buildArtifactPath at built
  dsimp only at built
  split at built
  · contradiction
  · split at built
    · rename_i fits
      rwa [Option.some.inj built] at fits
    · contradiction

/-- For every library that parses exactly JSON, every session id and source directory without
characters that need escapes, and every clip a run of parsed records emits whose path can be
built: the clip is printed, and what is printed passes the default filter and gives a row in the
database if and only if the session id is shorter than 128 bytes. -/
theorem emitted_accepted_iff (miniz : Miniz) (cjson : CJson) (strtod : Bytes → Double)
    (exact : cjson.Exact strtod) (printItem : Item → Option CStr) (calls : List Call)
    (parsed : ∀ call ∈ calls, ParsedCall call) (clip : ClipRecord)
    (snapshot : clip ∈ emitted (Fsm.reset.trace calls)) (src session path : CStr)
    (plain : Plain session.bytes) (plainSrc : Plain src.bytes)
    (built : clipPath clip src session = some path) (complete : Bool) :
    ∃ line, emitClip cjson clip src session complete = some line ∧
      (AcceptedDownstream miniz cjson printItem line (ingestKey session clip.tsSec) path ↔
        session.bytes.length < 128) := by
  have printable := emitted_printable calls parsed startsInRange_reset clip snapshot
  have plainPath := (plain_clipPath built).mpr ⟨plainSrc, plain⟩
  have fields := extractClip_clipText exact clip complete plain plainPath printable
    (length_clipPath built)
  refine ⟨clipText cjson clip session path complete, by simp [emitClip, printable.active, built],
    ?_⟩
  constructor
  · intro accepted
    by_contra long
    rw [if_neg long] at fields
    have found := accepted.extracted
    rw [fields] at found
    contradiction
  · intro short
    rw [if_pos short] at fields
    obtain ⟨body, split, inner⟩ :=
      (readsBack_of_plain exact clip complete plain plainPath).oneLine
    have matched := clipText_matched exact printItem clip complete plain plainPath
    have trimmed := trimLine_clipText cjson clip complete plain plainPath
    have object := clipText_object cjson clip complete plain plainPath
    have same := List.append_cancel_right (split.symm.trans object)
    rw [← same, split] at trimmed
    rw [split] at matched fields ⊢
    exact accepted_of_line miniz cjson printItem inner trimmed matched fields

/-- One chunk at the epoch, closed by the final flush. -/
def oneChunk : List Call := [.processRecord (.data 1 0 9 0) 5000 0, .flushFinal]

/-- A short session id. -/
theorem emitted_accepted_short :
    ∃ line, emitClip sampleJson plainClip (.ofBytes (ascii "/data")) (.ofBytes (ascii "cam-1"))
        true = some line ∧
      (AcceptedDownstream sampleMiniz sampleJson (fun _ => none) line
          (ingestKey (.ofBytes (ascii "cam-1")) plainClip.tsSec)
          (.ofBytes (ascii "/data/cam-1_0.bin")) ↔
        (CStr.ofBytes (ascii "cam-1")).bytes.length < 128) :=
  emitted_accepted_iff sampleMiniz sampleJson sampleStrtod sampleJson_exact (fun _ => none)
    oneChunk (by decide) plainClip (by decide) _ _ _ (by decide) (by decide) (by decide) true

/-- A session id of 128 letters. -/
def longSession : CStr := .ofBytes (List.replicate 128 97)

/-- The line printed for it in the directory `d`. -/
def longLine : Bytes :=
  ascii "\x7b\"type\":\"clip\",\"session_id\":\"" ++ List.replicate 128 97 ++
    ascii "\",\"ts\":0,\"path\":\"d/" ++ List.replicate 128 97 ++
    ascii "_0.bin\",\"offset\":0,\"length\":9,\"complete\":true\x7d\n"

/-- The ingest of a text with a time to live of 300 seconds. -/
def ingest (stdin : Bytes) : Invocation :=
  ⟨.append stdin, .ofBytes (ascii "300"), .ofBytes (ascii "clips.db"), 100, fun _ => 100⟩

/-- A clip of that session is printed and passes the filter; the ingest loop appends no row for
it and succeeds. -/
theorem long_session_dropped :
    plainClip ∈ emitted (Fsm.reset.trace oneChunk) ∧ Plain longSession.bytes ∧
      Plain (CStr.ofBytes (ascii "d")).bytes ∧
      (clipPath plainClip (.ofBytes (ascii "d")) longSession).isSome ∧
      emitClip sampleJson plainClip (.ofBytes (ascii "d")) longSession true = some longLine ∧
      logParseJsonl sampleJson (fun _ => none) (logFilterParse defaultFilter) longLine =
        longLine ∧
      clipStoreMain sampleMiniz sampleJson (ingest longLine) [] = ⟨0, [], []⟩ ∧
      ∀ key path, ¬AcceptedDownstream sampleMiniz sampleJson (fun _ => none) longLine key path := by
  have dropped : extractClip sampleJson longLine = none := by decide +kernel
  refine ⟨by decide, by decide +kernel, by decide, by decide +kernel, by decide +kernel,
    by decide +kernel, by decide +kernel, ?_⟩
  intro key path accepted
  have found := accepted.extracted
  rw [dropped] at found
  cases found

end StreamPipeline.Pipeline
