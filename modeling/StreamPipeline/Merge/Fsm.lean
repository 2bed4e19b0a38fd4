import StreamPipeline.Merge.Events

/-!
# The clip state machine

`sm_fsm.c` groups metadata records into clips. The model keeps the machine integers of the
source: sequence numbers, offsets and lengths are `uint64_t`, times are `int64_t`, and every
addition and subtraction wraps as the machine's does. `Call.Exact` lists the operations one
call performs and says that none of them wraps.
-/

namespace StreamPipeline.Merge

/-- `sm_meta_record_t` — one metadata row. -/
structure MetaRecord where
  /-- Record kind; the caller only feeds `data`. -/
  kind : CStr
  /-- Sequence number of the chunk. -/
  seq : UInt64
  /-- Byte offset of the chunk in the session file. -/
  offset : UInt64
  /-- Payload length in bytes. -/
  length : UInt64
  /-- Source timestamp in milliseconds. -/
  tsMs : Int64
  /-- Tags attached to the chunk. -/
  events : EventSet
  /-- Parsing succeeded. -/
  valid : Bool
  deriving DecidableEq

/-- `sm_clip_record_t` — the snapshot of one clip. -/
structure ClipRecord where
  active : Bool
  startTsMs : Int64
  endTsMs : Int64
  startOffset : UInt64
  totalLength : UInt64
  events : EventSet
  deriving DecidableEq

/-- `sm_fsm_t` — the working state. -/
structure Fsm where
  active : Bool
  startTsMs : Int64
  endTsMs : Int64
  startOffset : UInt64
  totalLength : UInt64
  expectedSeq : UInt64
  expectedOffset : UInt64
  lastChunkWallMs : Int64
  events : EventSet
  deriving DecidableEq

/-- `sm_fsm_action_t`. -/
inductive Action where
  | none
  | rejectLate
  | emitComplete
  | emitPartial
  deriving DecidableEq, Repr

/-- What one call leaves behind: the state, the returned action, and the snapshot written
through `out`, absent when the call does not write it. -/
structure Answer where
  /-- State after the call. -/
  fsm : Fsm
  /-- Returned action. -/
  action : Action
  /-- Snapshot written through the output pointer. -/
  out : Option ClipRecord
  deriving DecidableEq

namespace Fsm

/-- `snapshot_clip`. -/
def snapshotClip (fsm : Fsm) : ClipRecord where
  active := fsm.active
  startTsMs := fsm.startTsMs
  endTsMs := fsm.endTsMs
  startOffset := fsm.startOffset
  totalLength := fsm.totalLength
  events := fsm.events

/-- `start_clip` — overwrites every field of the state. -/
def startClip (rec : MetaRecord) (nowMs : Int64) : Fsm where
  active := true
  startTsMs := rec.tsMs
  endTsMs := rec.tsMs
  startOffset := rec.offset
  totalLength := rec.length
  expectedSeq := rec.seq + 1
  expectedOffset := rec.offset + rec.length
  lastChunkWallMs := nowMs
  events := rec.events

/-- `append_record` — the result of `sm_event_set_add_all` is ignored. -/
def appendRecord (fsm : Fsm) (rec : MetaRecord) (nowMs : Int64) : Fsm :=
  { fsm with
    endTsMs := rec.tsMs
    totalLength := fsm.totalLength + rec.length
    expectedSeq := rec.seq + 1
    expectedOffset := rec.offset + rec.length
    lastChunkWallMs := nowMs
    events := (fsm.events.addAll rec.events).1 }

/-- `sm_fsm_reset` — the zeroed state. -/
def reset : Fsm where
  active := false
  startTsMs := 0
  endTsMs := 0
  startOffset := 0
  totalLength := 0
  expectedSeq := 0
  expectedOffset := 0
  lastChunkWallMs := 0
  events := .reset

/-- `sm_fsm_process_record`. -/
def processRecord (fsm : Fsm) (rec : MetaRecord) (clipMs nowMs : Int64) : Answer :=
  if !rec.valid then ⟨fsm, .none, none⟩
  else if !fsm.active then ⟨startClip rec nowMs, .none, none⟩
  else if rec.seq < fsm.expectedSeq then ⟨fsm, .rejectLate, none⟩
  else if fsm.expectedSeq < rec.seq ∨ rec.offset ≠ fsm.expectedOffset then
    -- A forward jump means bytes are missing; close the current clip as partial.
    ⟨startClip rec nowMs, .emitPartial, some fsm.snapshotClip⟩
  else if clipMs ≤ rec.tsMs - fsm.startTsMs then
    -- The boundary chunk becomes the first chunk of the next window.
    ⟨startClip rec nowMs, .emitComplete, some fsm.snapshotClip⟩
  else ⟨fsm.appendRecord rec nowMs, .none, none⟩

/-- `sm_fsm_check_idle`. -/
def checkIdle (fsm : Fsm) (idleMs nowMs : Int64) : Answer :=
  if !fsm.active then ⟨fsm, .none, none⟩
  else if nowMs - fsm.lastChunkWallMs < idleMs then ⟨fsm, .none, none⟩
  else ⟨reset, .emitPartial, some fsm.snapshotClip⟩

/-- `sm_fsm_flush_final`. -/
def flushFinal (fsm : Fsm) : Answer :=
  if !fsm.active then ⟨fsm, .none, none⟩
  else ⟨reset, .emitComplete, some fsm.snapshotClip⟩

end Fsm

/-- One call of the state machine's interface with its arguments. -/
inductive Call where
  | processRecord (rec : MetaRecord) (clipMs nowMs : Int64)
  | checkIdle (idleMs nowMs : Int64)
  | flushFinal

/-- The answer of a call in a state. -/
def Fsm.answer (fsm : Fsm) : Call → Answer
  | .processRecord rec clipMs nowMs => fsm.processRecord rec clipMs nowMs
  | .checkIdle idleMs nowMs => fsm.checkIdle idleMs nowMs
  | .flushFinal => fsm.flushFinal

/-- The calls of a run, each with its answer. -/
def Fsm.trace (fsm : Fsm) : List Call → List (Call × Answer)
  | [] => []
  | call :: calls => (call, fsm.answer call) :: (fsm.answer call).fsm.trace calls

/-- The state a run ends in. -/
def Fsm.after (fsm : Fsm) (calls : List Call) : Fsm :=
  calls.foldl (fun state call => (state.answer call).fsm) fsm

/-- The five ways `sm_fsm_process_record` treats a valid record, each with its guard. -/
inductive RecordRule (fsm : Fsm) (rec : MetaRecord) (clipMs nowMs : Int64) : Answer → Prop where
  /-- No clip is open. -/
  | start (closed : fsm.active = false) :
      RecordRule fsm rec clipMs nowMs ⟨Fsm.startClip rec nowMs, .none, none⟩
  /-- The sequence number is behind the expected one. -/
  | late (opened : fsm.active = true) (behind : rec.seq < fsm.expectedSeq) :
      RecordRule fsm rec clipMs nowMs ⟨fsm, .rejectLate, none⟩
  /-- Chunks are missing before the record. -/
  | gap (opened : fsm.active = true) (ahead : ¬rec.seq < fsm.expectedSeq)
      (broken : fsm.expectedSeq < rec.seq ∨ rec.offset ≠ fsm.expectedOffset) :
      RecordRule fsm rec clipMs nowMs
        ⟨Fsm.startClip rec nowMs, .emitPartial, some fsm.snapshotClip⟩
  /-- The record continues the clip but lies past its window. -/
  | window (opened : fsm.active = true) (next : rec.seq = fsm.expectedSeq)
      (adjacent : rec.offset = fsm.expectedOffset)
      (past : clipMs ≤ rec.tsMs - fsm.startTsMs) :
      RecordRule fsm rec clipMs nowMs
        ⟨Fsm.startClip rec nowMs, .emitComplete, some fsm.snapshotClip⟩
  /-- The record continues the clip inside its window. -/
  | append (opened : fsm.active = true) (next : rec.seq = fsm.expectedSeq)
      (adjacent : rec.offset = fsm.expectedOffset)
      (inside : ¬clipMs ≤ rec.tsMs - fsm.startTsMs) :
      RecordRule fsm rec clipMs nowMs ⟨fsm.appendRecord rec nowMs, .none, none⟩

/-- Every answer to a valid record follows one of the five rules. -/
theorem processRecord_rule (fsm : Fsm) (rec : MetaRecord) (clipMs nowMs : Int64)
    (valid : rec.valid = true) :
    RecordRule fsm rec clipMs nowMs (fsm.processRecord rec clipMs nowMs) := by
  cases opened : fsm.active with
  | false => simpa [Fsm.processRecord, valid, opened] using .start opened
  | true =>
    by_cases behind : rec.seq < fsm.expectedSeq
    · simpa [Fsm.processRecord, valid, opened, behind] using .late opened behind
    by_cases broken : fsm.expectedSeq < rec.seq ∨ rec.offset ≠ fsm.expectedOffset
    · simpa only [Fsm.processRecord, valid, opened, behind, broken, Bool.not_true,
        Bool.false_eq_true, ↓reduceIte] using .gap opened behind broken
    obtain ⟨level, adjacent⟩ := not_or.mp broken
    have next : rec.seq = fsm.expectedSeq :=
      UInt64.le_antisymm (UInt64.not_lt.mp level) (UInt64.not_lt.mp behind)
    have adjacent : rec.offset = fsm.expectedOffset := Decidable.not_not.mp adjacent
    by_cases past : clipMs ≤ rec.tsMs - fsm.startTsMs
    · simpa only [Fsm.processRecord, valid, opened, behind, broken, past, Bool.not_true,
        Bool.false_eq_true, ↓reduceIte] using .window opened next adjacent past
    · simpa only [Fsm.processRecord, valid, opened, behind, broken, past, Bool.not_true,
        Bool.false_eq_true, ↓reduceIte] using .append opened next adjacent past

/-- The two ways `sm_fsm_check_idle` answers. -/
inductive IdleRule (fsm : Fsm) (idleMs nowMs : Int64) : Answer → Prop where
  /-- Nothing is open, or the last chunk is recent. -/
  | keep (recent : fsm.active = true → nowMs - fsm.lastChunkWallMs < idleMs) :
      IdleRule fsm idleMs nowMs ⟨fsm, .none, none⟩
  /-- The open clip has been idle for the timeout. -/
  | expire (opened : fsm.active = true) (stale : ¬nowMs - fsm.lastChunkWallMs < idleMs) :
      IdleRule fsm idleMs nowMs ⟨.reset, .emitPartial, some fsm.snapshotClip⟩

/-- Every idle check follows one of the two rules. -/
theorem checkIdle_rule (fsm : Fsm) (idleMs nowMs : Int64) :
    IdleRule fsm idleMs nowMs (fsm.checkIdle idleMs nowMs) := by
  cases opened : fsm.active with
  | false => simpa [Fsm.checkIdle, opened] using .keep (by simp [opened])
  | true =>
    by_cases recent : nowMs - fsm.lastChunkWallMs < idleMs
    · simpa [Fsm.checkIdle, opened, recent] using .keep (fun _ => recent)
    · simpa only [Fsm.checkIdle, opened, recent, Bool.not_true, Bool.false_eq_true,
        ↓reduceIte] using .expire opened recent

/-- The two ways `sm_fsm_flush_final` answers. -/
inductive FlushRule (fsm : Fsm) : Answer → Prop where
  /-- Nothing is open. -/
  | keep (closed : fsm.active = false) : FlushRule fsm ⟨fsm, .none, none⟩
  /-- The open clip is emitted. -/
  | emit (opened : fsm.active = true) :
      FlushRule fsm ⟨.reset, .emitComplete, some fsm.snapshotClip⟩

/-- Every final flush follows one of the two rules. -/
theorem flushFinal_rule (fsm : Fsm) : FlushRule fsm fsm.flushFinal := by
  cases opened : fsm.active with
  | false => simpa [Fsm.flushFinal, opened] using .keep opened
  | true => simpa [Fsm.flushFinal, opened] using .emit opened

end StreamPipeline.Merge
