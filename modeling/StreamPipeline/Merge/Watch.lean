import StreamPipeline.Lib.Lines
import StreamPipeline.Lib.Runs
import StreamPipeline.Merge.Reader

/-!
# The session directory and its two processes

A writer appends metadata lines to the meta file, closes it and creates the sentinel after its
last line. `stream_merge` watches the directory, opens the meta file as soon as it is there and
reads it until it has seen the sentinel. Both move one system call at a time; the watches queue
the events in between, and no call fails except an `open` of a file that is not there.
-/

namespace StreamPipeline.Merge

open Codec

/-- `PIPELINE_SENTINEL_NAME`. -/
def pipelineSentinelName : CStr := .ofBytes (ascii ".pipeline_end")

/-- What `strrchr` leaves of a path behind its last slash. -/
def baseName (path : Bytes) : Bytes := (path.reverse.takeWhile fun byte => byte ≠ 47).reverse

/-- `lp_is_completed_session`. -/
def lpIsCompletedSession (filename : CStr) : Bool :=
  baseName filename.bytes = pipelineSentinelName.bytes

/-- An event names the sentinel; an event without a name does not. -/
def namesSentinel (name : CStr) : Bool := name.bytes ≠ [] && lpIsCompletedSession name

/-- The name of the meta file. -/
def Session.metaName (session : Session) : CStr :=
  session.session ++ CStr.ofBytes (ascii ".meta.jsonl")

/-- The session directory, with the events the watches of `stream_merge` hold. -/
structure Directory where
  /-- The session's `.bin` file is there. -/
  bin : Bool
  /-- The content of the meta file; none before it is created. -/
  metaFile : Option Bytes
  /-- The sentinel is there. -/
  sentinel : Bool
  /-- The names in the events of the directory watch; none before the watch. -/
  dirEvents : Option (List CStr)
  /-- The events of the meta file's own watch, which carry no name; none before the watch. -/
  metaEvents : Option (List CStr)

namespace Directory

/-- The bytes in the meta file. -/
def content (directory : Directory) : Bytes := directory.metaFile.getD []

/-- The lines in the meta file. -/
def fileLines (directory : Directory) : List Bytes := (cutLines directory.content).1

/-- The events waiting on the directory watch. -/
def dirQueue (directory : Directory) : List CStr := directory.dirEvents.getD []

/-- The events waiting on the watch of the meta file. -/
def metaQueue (directory : Directory) : List CStr := directory.metaEvents.getD []

/-- An event of the directory watch. -/
def report (directory : Directory) (name : CStr) : Directory :=
  { directory with dirEvents := directory.dirEvents.map fun queue => queue ++ [name] }

/-- An event of the watch of the meta file. -/
def reportMeta (directory : Directory) : Directory :=
  { directory with metaEvents := directory.metaEvents.map fun queue => queue ++ [.empty] }

/-- The writer's close of the meta file. A session id with a slash leads out of the watched
directory. -/
def closeMeta (directory : Directory) (session : Session) : Directory :=
  if 47 ∈ session.session.bytes then directory.reportMeta
  else directory.reportMeta.report session.metaName

end Directory

/-! ## The writer -/

/-- Where the writer stands. -/
inductive Writer where
  /-- The meta file is not open, and the session goes on. -/
  | idle
  /-- The meta file is open, with the rest of the line still to write. -/
  | writing (left : Bytes)
  /-- The sentinel is created and still open. -/
  | touching
  /-- The session is complete. -/
  | finished
  deriving DecidableEq

/-- What the writer can do. -/
inductive WriterAct where
  /-- The `.bin` file is created. -/
  | makeBin
  /-- `open` of the meta file, which creates it when it is not there. -/
  | openMeta
  /-- The next line. -/
  | beginLine (line : Bytes)
  /-- `write` of some bytes of the line. -/
  | write (count : Nat)
  /-- `close` of the meta file, between two lines. -/
  | closeMeta
  /-- `open` of the sentinel. -/
  | makeSentinel
  /-- `close` of the sentinel. -/
  | closeSentinel

/-- One step of the writer. -/
def WriterAct.perform (session : Session) (directory : Directory) :
    Writer → WriterAct → Option (Directory × Writer)
  | writer, .makeBin => some ({ directory with bin := true }, writer)
  | .idle, .openMeta => some ({ directory with metaFile := some directory.content }, .writing [])
  | .writing [], .beginLine line =>
    if lf ∈ line then none else some (directory, .writing (line ++ [lf]))
  | .writing left, .write count =>
    if left.take count = [] then none
    else
      some ({ directory with metaFile := some (directory.content ++ left.take count) }.reportMeta,
        .writing (left.drop count))
  | .writing [], .closeMeta => some (directory.closeMeta session, .idle)
  | .idle, .makeSentinel => some ({ directory with sentinel := true }, .touching)
  | .touching, .closeSentinel => some (directory.report pipelineSentinelName, .finished)
  | _, _ => none

/-! ## The merger -/

/-- What follows a `drain_meta`. -/
inductive Resume where
  /-- The head of the poll loop. -/
  | loop (saw : Bool)
  /-- The directory events of the same round, when `poll` reported some. -/
  | events (dirReady : Bool)
  /-- The final flush. -/
  | final
  deriving DecidableEq

/-- Where `stream_merge_main` stands, with the sentinel flag where it is read again. -/
inductive MergerPc where
  /-- Before the `.bin` file is opened. -/
  | start
  /-- Before `lp_watch_dir`. -/
  | watchingDir
  /-- Before the first `sentinel_exists`. -/
  | checking
  /-- Before the first `open` of the meta file. -/
  | opening (saw : Bool)
  /-- The head of the wait loop. -/
  | waiting
  /-- The wait loop in `lp_consume_inotify_events`. -/
  | consuming (saw : Bool)
  /-- The wait loop before `open`. -/
  | reopening
  /-- Before `lp_watch_file`. -/
  | watchingMeta (saw : Bool)
  /-- `drain_meta` reads. -/
  | draining (resume : Resume)
  /-- `drain_meta` splits lines. -/
  | splitting (resume : Resume)
  /-- The head of the poll loop. -/
  | polling
  /-- The poll loop consumes the events of the meta file. -/
  | consumingMeta (dirReady : Bool)
  /-- The poll loop consumes the events of the directory. -/
  | consumingDir (saw : Bool)
  /-- The poll loop before `sentinel_exists`. -/
  | rechecking (saw : Bool)
  /-- The poll loop before `check_idle`. -/
  | checkingIdle (saw : Bool)
  /-- Before the final flush. -/
  | flushing
  /-- `stream_merge_main` has returned. -/
  | returned (status : Nat)
  deriving DecidableEq

/-- The state of `stream_merge`. -/
structure Merger where
  /-- Where it stands. -/
  pc : MergerPc
  /-- The bytes read from the meta file. -/
  position : Nat
  /-- `meta_buf`. -/
  metaBuf : Bytes
  /-- `fsm`. -/
  fsm : Fsm
  /-- Standard output. -/
  out : Bytes
  /-- The lines handed to the parser, in order. -/
  handed : List Bytes

/-- The loop condition: the poll loop goes on until the sentinel is seen. -/
def loopHead (saw : Bool) : MergerPc := if saw then .draining .final else .polling

/-- Where `drain_meta` returns to. -/
def Resume.next : Resume → MergerPc
  | .loop saw => loopHead saw
  | .events dirReady => if dirReady then .consumingDir false else .rechecking false
  | .final => .flushing

/-- What the scheduler lets `stream_merge` do. -/
inductive MergerAct where
  /-- The next call, at a time of the monotonic clock. -/
  | advance (nowMs : Int64)
  /-- `read` returns some of the events or bytes that are there. -/
  | take (count : Nat)
  /-- The wait for the meta file has lasted too long. -/
  | expire

section Merger

variable (cjson : CJson) (session : Session)

/-- `sentinel_exists`. -/
def sentinelExists (directory : Directory) : Bool :=
  (buildArtifactPath session.src pipelineSentinelName).isSome && directory.sentinel

/-- Both artifact paths fit. -/
def Session.pathsFit : Bool :=
  (buildArtifactPath session.src (session.session ++ CStr.ofBytes (ascii ".bin"))).isSome &&
    (buildArtifactPath session.src session.metaName).isSome

/-- The first line of the buffer is handed to the parser; an empty one is only removed. -/
def Merger.splitLine (nowMs : Int64) (resume : Resume) (merger : Merger) : Merger :=
  match cutAt lf merger.metaBuf with
  | none => { merger with pc := resume.next }
  | some (line, rest) =>
    if line = [] then { merger with metaBuf := rest }
    else
      match handleLine cjson session merger.fsm nowMs line with
      | none => { merger with pc := .returned 1, handed := merger.handed ++ [line] }
      | some (fsm, printed) => { merger with
          metaBuf := rest
          fsm := fsm
          out := merger.out ++ printed
          handed := merger.handed ++ [line] }

/-- The clips printed between two drains, and where the program goes on. -/
def Merger.printed (merger : Merger) (pc : MergerPc) : Option (Fsm × Bytes) → Merger
  | none => { merger with pc := .returned 1 }
  | some (fsm, printed) => { merger with pc := pc, fsm := fsm, out := merger.out ++ printed }

/-- The next call of `stream_merge_main`. -/
def Merger.advance (nowMs : Int64) (directory : Directory) (merger : Merger) :
    Option (Directory × Merger) :=
  match merger.pc with
  | .start =>
    if session.pathsFit && directory.bin then some (directory, { merger with pc := .watchingDir })
    else some (directory, { merger with pc := .returned 1 })
  | .watchingDir =>
    some ({ directory with dirEvents := some [] }, { merger with pc := .checking })
  | .checking =>
    some (directory, { merger with pc := .opening (sentinelExists session directory) })
  | .opening saw =>
    if directory.metaFile.isSome then some (directory, { merger with pc := .watchingMeta saw })
    else if saw then some (directory, { merger with pc := .returned 0 })
    else some (directory, { merger with pc := .waiting })
  | .waiting =>
    -- Without events `poll` returns at the end of its timeout.
    if directory.dirQueue = [] then some (directory, { merger with pc := .reopening })
    else some (directory, { merger with pc := .consuming false })
  | .consuming saw =>
    if directory.dirQueue ≠ [] then none
    -- The loop ends on the sentinel without another `open`.
    else if saw then some (directory, { merger with pc := .returned 0 })
    else some (directory, { merger with pc := .reopening })
  | .reopening =>
    if directory.metaFile.isSome then some (directory, { merger with pc := .watchingMeta false })
    else some (directory, { merger with pc := .waiting })
  | .watchingMeta saw =>
    some ({ directory with metaEvents := some [] }, { merger with pc := .draining (.loop saw) })
  | .draining resume =>
    if directory.content.drop merger.position ≠ [] then none
    else some (directory, { merger with pc := .splitting resume })
  | .splitting resume => some (directory, merger.splitLine cjson session nowMs resume)
  | .polling =>
    if directory.metaQueue ≠ [] then
      some (directory, { merger with pc := .consumingMeta (directory.dirQueue ≠ []) })
    else if directory.dirQueue ≠ [] then
      some (directory, { merger with pc := .consumingDir false })
    else some (directory, { merger with pc := .rechecking false })
  | .consumingMeta dirReady =>
    if directory.metaQueue ≠ [] then none
    else some (directory, { merger with pc := .draining (.events dirReady) })
  | .consumingDir saw =>
    if directory.dirQueue ≠ [] then none
    else some (directory, { merger with pc := .rechecking saw })
  | .rechecking saw =>
    some (directory, { merger with pc := .checkingIdle (sentinelExists session directory || saw) })
  | .checkingIdle saw =>
    some (directory, merger.printed (loopHead saw) (checkIdle cjson session merger.fsm nowMs))
  | .flushing =>
    some (directory, merger.printed (.returned 0) (flushFinal cjson session merger.fsm))
  | .returned _ => none

/-- A `read` that returns something. -/
def Merger.take (count : Nat) (directory : Directory) (merger : Merger) :
    Option (Directory × Merger) :=
  match merger.pc with
  | .consuming saw =>
    if directory.dirQueue.take count = [] then none
    else
      some ({ directory with dirEvents := some (directory.dirQueue.drop count) },
        { merger with
          pc := .consuming ((directory.dirQueue.take count).any namesSentinel || saw) })
  | .consumingDir saw =>
    if directory.dirQueue.take count = [] then none
    else
      some ({ directory with dirEvents := some (directory.dirQueue.drop count) },
        { merger with
          pc := .consumingDir ((directory.dirQueue.take count).any namesSentinel || saw) })
  | .consumingMeta _ =>
    if directory.metaQueue.take count = [] then none
    else some ({ directory with metaEvents := some (directory.metaQueue.drop count) }, merger)
  | .draining _ =>
    let chunk := (directory.content.drop merger.position).take (min count 4096)
    if chunk = [] then none
    else
      some (directory, { merger with
        position := merger.position + chunk.length
        metaBuf := merger.metaBuf ++ chunk })
  | _ => none

/-- One step of `stream_merge`. -/
def MergerAct.perform (directory : Directory) (merger : Merger) :
    MergerAct → Option (Directory × Merger)
  | .advance nowMs => merger.advance cjson session nowMs directory
  | .take count => merger.take count directory
  | .expire =>
    if merger.pc = .waiting then some (directory, { merger with pc := .returned 1 }) else none

end Merger

/-! ## The system -/

/-- The directory and the two processes. -/
structure World where
  /-- The directory. -/
  directory : Directory
  /-- The writer. -/
  writer : Writer
  /-- `stream_merge`. -/
  merger : Merger

/-- One step of the system. -/
inductive Event where
  /-- A step of the writer. -/
  | writer (act : WriterAct)
  /-- Another file is closed in the directory, or moved into it. -/
  | other (name : CStr)
  /-- A step of `stream_merge`. -/
  | merger (act : MergerAct)

/-- The system takes a step. -/
def World.step (cjson : CJson) (session : Session) (world : World) : Event → Option World
  | .writer act =>
    (act.perform session world.directory world.writer).map fun moved =>
      { world with directory := moved.1, writer := moved.2 }
  | .other name =>
    if lpIsCompletedSession name then none
    else some { world with directory := world.directory.report name }
  | .merger act =>
    (act.perform cjson session world.directory world.merger).map fun moved =>
      { world with directory := moved.1, merger := moved.2 }

/-- An empty directory before either process has started. -/
def World.initial : World where
  directory := ⟨false, none, false, none, none⟩
  writer := .idle
  merger := ⟨.start, 0, [], .reset, [], []⟩

/-- A read of the wait loop returns the sentinel's event only while the meta file has no line. -/
def World.Attentive (world : World) (event : Event) : Prop :=
  match event, world.merger.pc with
  | .merger (.take count), .consuming _ =>
    (world.directory.dirQueue.take count).any namesSentinel = true → world.directory.fileLines = []
  | _, _ => True

instance (world : World) (event : Event) : Decidable (world.Attentive event) := by
  unfold World.Attentive
  split <;> infer_instance

end StreamPipeline.Merge
