import StreamPipeline.Lib.DynamicBuffer
import StreamPipeline.Merge.Reader

/-!
# Draining the meta file

`drain_meta` appends what `read` returns to a buffer that outlives the call, and then takes one
line after the other off its front. The model keeps the edits of the buffer in place. However
the bytes arrive, the lines are those of the whole content.
-/

namespace StreamPipeline.Merge

open Codec

/-- What one `read` returns. -/
structure Chunk where
  /-- The bytes. -/
  bytes : Bytes
  /-- An empty read ends the reading. -/
  nonempty : bytes ≠ []
  /-- The bytes fit the array they are read into. -/
  fits : bytes.length ≤ 4096

/-- The bytes of several reads. -/
def received (chunks : List Chunk) : Bytes := chunks.flatMap Chunk.bytes

/-- The variables that outlive a call of `drain_meta`, and what it has done so far. -/
structure Drain where
  /-- `meta_buf`. -/
  buffer : DynamicBuffer
  /-- `fsm`. -/
  fsm : Fsm
  /-- How often the clock was read. -/
  ticks : Nat
  /-- The records fed to the state machine, in order. -/
  fed : List MetaRecord
  /-- Standard output. -/
  out : Bytes

/-- The variables at the start of the program. -/
def Drain.initial : Drain := ⟨.empty, .reset, 0, [], []⟩

section Draining

-- The clock at each reading, and what the memory of a reallocation holds.
variable (cjson : CJson) (session : Session) (clock : Nat → Int64) (fresh : Nat → UInt8)

/-- A line that is not empty. -/
def Drain.handle (line : CStr) (drain : Drain) : Option Drain :=
  match smReaderParseLine cjson line with
  | none => some drain
  | some rec =>
    if rec.valid ∧ rec.kind.bytes = ascii "data" then
      let answer := drain.fsm.processRecord rec session.clipMs (clock drain.ticks)
      (handleAction cjson session answer).map fun printed => { drain with
        fsm := answer.fsm
        ticks := drain.ticks + 1
        fed := drain.fed ++ [rec]
        out := drain.out ++ printed }
    else some drain

/-- The splitting loop; none when a clip cannot be printed. The buffer gets shorter with every
line. -/
def Drain.split (drain : Drain) : Option Drain :=
  match found : memchr lf drain.buffer.content with
  | none => some drain
  | some nl =>
    have inside : nl < drain.buffer.len := by
      simpa using (cutAt_of_memchr found).1
    have shorter := DynamicBuffer.len_consume inside
    if nl = 0 then Drain.split { drain with buffer := drain.buffer.consume nl inside }
    else
      match drain.handle cjson session clock (drain.buffer.textBefore nl) with
      | none => none
      | some handled => Drain.split { handled with buffer := drain.buffer.consume nl inside }
termination_by drain.buffer.len

/-- One successful `read`; none when the buffer cannot grow. -/
def Drain.read (drain : Drain) (chunk : Chunk) : Option Drain :=
  (drain.buffer.appendMem fresh chunk.bytes).map fun buffer => { drain with buffer := buffer }

/-- `drain_meta`, with what its reads return before the end of the file. -/
def drainMeta (drain : Drain) (chunks : List Chunk) : Option Drain :=
  (chunks.foldlM (Drain.read fresh) drain).bind (Drain.split cjson session clock)

/-- Successive calls of `drain_meta`; the first that fails is the last. -/
def drainCalls (drain : Drain) (calls : List (List Chunk)) : Option Drain :=
  calls.foldlM (drainMeta cjson session clock fresh) drain

end Draining

/-! ## What does not depend on the pieces -/

/-- The state apart from the time of the last chunk. -/
def Fsm.timeless (fsm : Fsm) : Fsm := { fsm with lastChunkWallMs := 0 }

/-- What a run is compared by. -/
structure Drained where
  /-- The records fed to the state machine, in order. -/
  fed : List MetaRecord
  /-- The clips printed. -/
  out : Bytes
  /-- The state machine without its time of the last chunk. -/
  fsm : Fsm
  /-- What is left in the buffer. -/
  left : Bytes
  deriving DecidableEq

/-- What a run has come to. -/
def Drain.drained (drain : Drain) : Drained :=
  ⟨drain.fed, drain.out, drain.fsm.timeless, drain.buffer.content⟩

section Lines

variable (cjson : CJson) (session : Session)

/-- The record a line feeds to the state machine. -/
def fedBy (line : Bytes) : List MetaRecord :=
  match smReaderParseLine cjson (.ofBytes line) with
  | none => []
  | some rec => if rec.valid ∧ rec.kind.bytes = ascii "data" then [rec] else []

/-- The effect of a line, at a clock that stands still. -/
def Drained.absorb (drained : Drained) (line : Bytes) : Option Drained :=
  if line = [] then some drained
  else
    (handleLine cjson session drained.fsm 0 line).map fun handled => { drained with
      fsm := handled.1
      out := drained.out ++ handled.2
      fed := drained.fed ++ fedBy cjson line }

/-- The effect of further bytes. -/
def Drained.settle (drained : Drained) (bytes : Bytes) : Option Drained :=
  let cut := cutLines (drained.left ++ bytes)
  (cut.1.foldlM (Drained.absorb cjson session) drained).map fun settled =>
    { settled with left := cut.2 }

end Lines

/-- An answer apart from the time of the last chunk. -/
def Answer.timeless (answer : Answer) : Answer := { answer with fsm := answer.fsm.timeless }

/-- The time of a record only enters the time of the last chunk. -/
theorem processRecord_timeless (fsm : Fsm) (rec : MetaRecord) (clipMs nowMs : Int64) :
    fsm.timeless.processRecord rec clipMs 0 =
      (fsm.processRecord rec clipMs nowMs).timeless := by
  unfold Fsm.processRecord
  simp only [apply_ite Answer.timeless]
  rfl

section Pieces

variable {cjson : CJson} {session : Session} {clock : Nat → Int64} {fresh : Nat → UInt8}

/-- A line has the same effect at every time. -/
theorem handle_drained {drain : Drain} {line : Bytes} (nonempty : line ≠ []) :
    (drain.handle cjson session clock (.ofBytes line)).map Drain.drained =
      drain.drained.absorb cjson session line := by
  rw [Drained.absorb, if_neg nonempty]
  unfold Drain.handle handleLine fedBy
  cases smReaderParseLine cjson (.ofBytes line) with
  | none => simp [Drain.drained]
  | some rec =>
    by_cases data : rec.valid ∧ rec.kind.bytes = ascii "data"
    · have timeless := processRecord_timeless drain.fsm rec session.clipMs (clock drain.ticks)
      simp only [if_pos data, Drain.drained, timeless, Option.map_map]
      rfl
    · simp [Drain.drained, data]

/-- The line at the front of the buffer has its effect while the terminator stands behind it. -/
theorem handle_textBefore {drain : Drain} {nl : Nat} (inside : nl < drain.buffer.len)
    (nonempty : nl ≠ 0) :
    (drain.handle cjson session clock (drain.buffer.textBefore nl)).map Drain.drained =
      drain.drained.absorb cjson session (drain.buffer.content.take nl) := by
  have length : (drain.buffer.content.take nl).length = nl := by
    rw [List.length_take, DynamicBuffer.length_content]
    omega
  have some : drain.buffer.content.take nl ≠ [] := by
    intro none
    rw [none] at length
    exact nonempty length.symm
  rw [DynamicBuffer.textBefore_eq inside, handle_drained some]

/-- What is left in the buffer plays no part in a line. -/
theorem absorb_left (drained : Drained) (line left : Bytes) :
    ({ drained with left := left } : Drained).absorb cjson session line =
      (drained.absorb cjson session line).map fun taken => { taken with left := left } := by
  unfold Drained.absorb
  split
  · rfl
  · simp only [Option.map_map]
    rfl

/-- What is left in the buffer plays no part in several lines. -/
theorem foldlM_absorb_left (text : List Bytes) (drained : Drained) (left : Bytes) :
    text.foldlM (Drained.absorb cjson session) { drained with left := left } =
      (text.foldlM (Drained.absorb cjson session) drained).map fun taken =>
        { taken with left := left } := by
  induction text generalizing drained with
  | nil => rfl
  | cons line text ih =>
    simp only [List.foldlM_cons, absorb_left]
    cases drained.absorb cjson session line with
    | none => rfl
    | some taken => exact ih taken

/-- The first line is taken first. -/
theorem settle_of_cutAt {drained : Drained} {line rest : Bytes}
    (found : cutAt lf drained.left = some (line, rest)) :
    drained.settle cjson session [] = (drained.absorb cjson session line).bind fun taken =>
      ({ taken with left := rest } : Drained).settle cjson session [] := by
  simp only [Drained.settle, List.append_nil, cutLines_of_cutAt found, List.foldlM_cons]
  cases drained.absorb cjson session line with
  | none => rfl
  | some taken =>
    simp only [Option.bind_eq_bind, Option.bind_some, foldlM_absorb_left, Option.map_map]
    rfl

/-- The loop takes the lines of the content and leaves what follows the last one. -/
theorem split_drained (drain : Drain) :
    (drain.split cjson session clock).map Drain.drained =
      drain.drained.settle cjson session [] := by
  fun_induction Drain.split cjson session clock drain with
  | case1 drain missing =>
    have cut := cutLines_of_cutAt_none (cutAt_of_memchr_none missing)
    simp [Drained.settle, Drain.drained, cut]
  | case2 drain found inside shorter ih =>
    have cut : cutAt lf drain.drained.left = _ := (cutAt_of_memchr found).2
    rw [ih, settle_of_cutAt cut, Drain.drained, DynamicBuffer.content_consume inside]
    rfl
  | case3 drain nl found inside shorter nonempty failed =>
    have cut : cutAt lf drain.drained.left = _ := (cutAt_of_memchr found).2
    have same : (drain.handle cjson session clock _).map _ = _ := handle_textBefore inside nonempty
    rw [settle_of_cutAt cut, ← same, failed]
    rfl
  | case4 drain nl found inside shorter nonempty handled taken ih =>
    have cut : cutAt lf drain.drained.left = _ := (cutAt_of_memchr found).2
    have same : (drain.handle cjson session clock _).map _ = _ := handle_textBefore inside nonempty
    rw [taken] at same
    rw [ih, settle_of_cutAt cut, ← same, Drain.drained, DynamicBuffer.content_consume inside]
    rfl

variable (fresh) in
/-- The reads put their bytes into the buffer, one behind the other. -/
theorem reads_content (chunks : List Chunk) (drain : Drain)
    (room : drain.buffer.len + (received chunks).length < sizeMax) :
    ∃ buffer, chunks.foldlM (Drain.read fresh) drain = some { drain with buffer := buffer } ∧
      buffer.content = drain.buffer.content ++ received chunks := by
  induction chunks generalizing drain with
  | nil => exact ⟨drain.buffer, rfl, by simp [received]⟩
  | cons chunk chunks ih =>
    have length : (received (chunk :: chunks)).length =
        chunk.bytes.length + (received chunks).length := by simp [received]
    obtain ⟨grown, appended, content⟩ := DynamicBuffer.appendMem_content fresh
      (show drain.buffer.len + chunk.bytes.length < sizeMax by omega)
    have len : grown.len = drain.buffer.len + chunk.bytes.length := by
      rw [← grown.length_content, content, List.length_append, DynamicBuffer.length_content]
    obtain ⟨buffer, read, later⟩ := ih { drain with buffer := grown } (by dsimp only; omega)
    refine ⟨buffer, ?_, ?_⟩
    · rw [List.foldlM_cons, Drain.read, appended]
      exact read
    · rw [later, content, List.append_assoc]
      rfl

/-- Bytes already in the buffer are taken as further bytes are. -/
theorem settle_left (drained : Drained) (bytes : Bytes) :
    ({ drained with left := drained.left ++ bytes } : Drained).settle cjson session [] =
      drained.settle cjson session bytes := by
  simp only [Drained.settle, List.append_nil, foldlM_absorb_left, Option.map_map]
  rfl

variable (cjson session clock fresh) in
/-- A call takes the lines that have become complete. -/
theorem drainMeta_drained (drain : Drain) (chunks : List Chunk)
    (room : drain.buffer.len + (received chunks).length < sizeMax) :
    (drainMeta cjson session clock fresh drain chunks).map Drain.drained =
      drain.drained.settle cjson session (received chunks) := by
  obtain ⟨buffer, read, content⟩ := reads_content fresh chunks drain room
  have filled : ({ drain with buffer := buffer } : Drain).drained =
      { drain.drained with left := drain.drained.left ++ received chunks } := by
    simp only [Drain.drained, content]
  rw [drainMeta, read, Option.bind_some, split_drained, filled, settle_left]

/-- Bytes taken in two steps have the effect of all of them. -/
theorem settle_append (drained : Drained) (first second : Bytes) :
    drained.settle cjson session (first ++ second) =
      (drained.settle cjson session first).bind fun settled =>
        settled.settle cjson session second := by
  simp only [Drained.settle]
  rw [← List.append_assoc, cutLines_append (drained.left ++ first), List.foldlM_append]
  cases (cutLines (drained.left ++ first)).1.foldlM (Drained.absorb cjson session) drained with
  | none => rfl
  | some taken =>
    simp only [Option.map_some, Option.bind_some, Option.bind_eq_bind, foldlM_absorb_left,
      Option.map_map]
    rfl

/-- The bytes behind the last line feed are left over. -/
theorem left_of_settle {drained settled : Drained} {bytes : Bytes}
    (taken : drained.settle cjson session bytes = some settled) :
    settled.left = (cutLines (drained.left ++ bytes)).2 := by
  obtain ⟨_, _, rfl⟩ := Option.map_eq_some_iff.mp taken
  rfl

/-- The records fed are those of the lines that are not empty, in order. -/
theorem fed_of_foldlM {text : List Bytes} {drained taken : Drained}
    (absorbed : text.foldlM (Drained.absorb cjson session) drained = some taken) :
    taken.fed = drained.fed ++ (text.filter (· ≠ [])).flatMap (fedBy cjson) := by
  induction text generalizing drained with
  | nil =>
    obtain rfl := Option.some.inj absorbed
    simp
  | cons line text ih =>
    rw [List.foldlM_cons] at absorbed
    obtain ⟨next, first, rest⟩ := Option.bind_eq_some_iff.mp absorbed
    rw [ih rest]
    unfold Drained.absorb at first
    by_cases empty : line = []
    · rw [if_pos empty] at first
      obtain rfl := Option.some.inj first
      simp [empty]
    · rw [if_neg empty] at first
      obtain ⟨handled, -, rfl⟩ := Option.map_eq_some_iff.mp first
      simp [empty]

variable (cjson session clock fresh) in
/-- However the bytes are cut into calls and reads, their effect is that of the whole. -/
theorem drainCalls_drained (calls : List (List Chunk)) (drain : Drain)
    (settled : lf ∉ drain.buffer.content)
    (room : drain.buffer.len + (received calls.flatten).length < sizeMax) :
    (drainCalls cjson session clock fresh drain calls).map Drain.drained =
      drain.drained.settle cjson session (received calls.flatten) := by
  induction calls generalizing drain with
  | nil =>
    have cut := cutLines_of_not_mem settled
    simp [drainCalls, received, Drained.settle, Drain.drained, cut]
  | cons chunks calls ih =>
    have parts : received (chunks :: calls).flatten =
        received chunks ++ received calls.flatten := by
      rw [List.flatten_cons, received, List.flatMap_append]
      rfl
    rw [parts, List.length_append] at room
    have first := drainMeta_drained cjson session clock fresh drain chunks (by omega)
    rw [parts, settle_append, ← first, drainCalls, List.foldlM_cons]
    cases drained : drainMeta cjson session clock fresh drain chunks with
    | none => rfl
    | some next =>
      rw [drained] at first
      have left : next.buffer.content = (cutLines (drain.buffer.content ++ received chunks)).2 :=
        left_of_settle first.symm
      have shorter := congrArg List.length (joinLines_cutLines
        (drain.buffer.content ++ received chunks))
      rw [← left, List.length_append, List.length_append, DynamicBuffer.length_content,
        DynamicBuffer.length_content] at shorter
      exact ih next (left ▸ not_mem_cutLines_snd _) (by omega)

end Pieces

/-- The lines taken, the clips printed, the state and the bytes left over do not depend on how the
content arrives, at whatever times: every complete line is taken once and in order, and what is left
over follows the last line feed. -/
theorem drain_independent_of_pieces (cjson : CJson) (session : Session)
    (clock otherClock : Nat → Int64) (fresh otherFresh : Nat → UInt8) (drain : Drain)
    (calls : List (List Chunk)) (whole : List Chunk)
    (settled : lf ∉ drain.buffer.content)
    (same : received whole = received calls.flatten)
    (room : drain.buffer.len + (received whole).length < sizeMax) :
    (drainCalls cjson session clock fresh drain calls).map Drain.drained =
        (drainMeta cjson session otherClock otherFresh drain whole).map Drain.drained ∧
      (drainCalls cjson session clock fresh drain calls).map Drain.drained =
        ((cutLines (drain.buffer.content ++ received whole)).1.foldlM
          (Drained.absorb cjson session) drain.drained).map (fun taken =>
            { taken with left := (cutLines (drain.buffer.content ++ received whole)).2 }) ∧
      ∀ after, drainCalls cjson session clock fresh drain calls = some after →
        after.buffer.content = (cutLines (drain.buffer.content ++ received whole)).2 ∧
        after.fed = drain.fed ++ ((cutLines (drain.buffer.content ++ received whole)).1.filter
          (· ≠ [])).flatMap (fedBy cjson) := by
  have cut := drainCalls_drained cjson session clock fresh calls drain settled (same ▸ room)
  rw [← same] at cut
  refine ⟨?_, cut, ?_⟩
  · rw [cut, drainMeta_drained cjson session otherClock otherFresh drain whole room]
  · intro after ended
    rw [ended] at cut
    refine ⟨left_of_settle cut.symm, ?_⟩
    obtain ⟨taken, absorbed, same⟩ := Option.map_eq_some_iff.mp cut.symm
    have fed : after.drained.fed = taken.fed := by rw [← same]
    exact fed.trans (fed_of_foldlM absorbed)

/-- An empty line and the first part of a metadata line. -/
def firstPiece : Chunk :=
  ⟨ascii "\n\x7b\"kind\":\"data\",\"sequence\":1,\"off", by decide, by decide⟩

/-- The rest of the line and the first byte of another. -/
def secondPiece : Chunk :=
  ⟨ascii "set\":0,\"length\":8,\"ts_ms\":1000\x7d\nx", by decide, by decide⟩

/-- Both pieces in one read. -/
def bothPieces : Chunk :=
  ⟨firstPiece.bytes ++ secondPiece.bytes, by decide, by decide⟩

/-- The clip of the example lasts five seconds. -/
def pieceSession : Session := ⟨.ofBytes (ascii "s"), .ofBytes (ascii "d"), 5000, 2000⟩

/-- A line cut in two by two calls. -/
theorem drain_independent_of_pieces_cutLine :
    (drainCalls sampleJson pieceSession Int64.ofNat UInt8.ofNat .initial
          [[firstPiece], [secondPiece]]).map Drain.drained =
        (drainMeta sampleJson pieceSession (fun _ => 7) (fun _ => 255) .initial
          [bothPieces]).map Drain.drained ∧
      (drainCalls sampleJson pieceSession Int64.ofNat UInt8.ofNat .initial
          [[firstPiece], [secondPiece]]).map Drain.drained =
        ((cutLines (Drain.initial.buffer.content ++ received [bothPieces])).1.foldlM
          (Drained.absorb sampleJson pieceSession) Drain.initial.drained).map (fun taken =>
            { taken with
              left := (cutLines (Drain.initial.buffer.content ++ received [bothPieces])).2 }) ∧
      ∀ after, drainCalls sampleJson pieceSession Int64.ofNat UInt8.ofNat .initial
          [[firstPiece], [secondPiece]] = some after →
        after.buffer.content =
          (cutLines (Drain.initial.buffer.content ++ received [bothPieces])).2 ∧
        after.fed = Drain.initial.fed ++ ((cutLines (Drain.initial.buffer.content ++
          received [bothPieces])).1.filter (· ≠ [])).flatMap (fedBy sampleJson) :=
  drain_independent_of_pieces sampleJson pieceSession Int64.ofNat (fun _ => 7) UInt8.ofNat
    (fun _ => 255) .initial [[firstPiece], [secondPiece]] [bothPieces] (by decide) (by decide)
    (by decide)

/-- The record is fed, and the byte of the line that is not complete is left over. -/
example : ((drainMeta sampleJson pieceSession (fun _ => 7) (fun _ => 255) .initial
    [bothPieces]).map fun drain => (drain.fed.map MetaRecord.seq, drain.buffer.content)) =
      some ([1], ascii "x") := by
  decide +kernel

end StreamPipeline.Merge
