import StreamPipeline.Lib.DynamicBuffer
import StreamPipeline.Lib.Tokens
import StreamPipeline.Merge.Watch

/-!
# The events as the kernel hands them out

`lp_consume_inotify_events` reads events into a buffer on its stack and walks over them by the
lengths in their headers. Behind the bytes of a read the buffer holds what was there before. The
walk sees the events of the read and nothing else, so it takes them off the queue as the reads of
the wait loop and the poll loop do.
-/

namespace StreamPipeline.Merge

/-- The bytes of a number that has this many, the lowest first. -/
def wordBytes : Nat → Nat → Bytes
  | 0, _ => []
  | width + 1, value => UInt8.ofNat value :: wordBytes width (value / 256)

/-- The number some bytes stand for. -/
def wordValue : Bytes → Nat
  | [] => 0
  | byte :: higher => byte.toNat + 256 * wordValue higher

/-- A number has as many bytes as it is given. -/
@[simp]
theorem length_wordBytes (width value : Nat) : (wordBytes width value).length = width := by
  induction width generalizing value with
  | zero => rfl
  | succ width ih => rw [wordBytes, List.length_cons, ih]

/-- A number that fits is read back. -/
theorem wordValue_wordBytes {width value : Nat} (fits : value < 256 ^ width) :
    wordValue (wordBytes width value) = value := by
  induction width generalizing value with
  | zero =>
    rw [Nat.pow_zero] at fits
    rw [wordBytes, wordValue]
    omega
  | succ width ih =>
    have higher : value / 256 < 256 ^ width := by
      rw [Nat.div_lt_iff_lt_mul (by decide), ← Nat.pow_succ]
      exact fits
    have low : (UInt8.ofNat value).toNat = value % 256 := UInt8.toNat_ofNat'
    rw [wordBytes, wordValue, ih higher, low]
    omega

/-- `struct inotify_event`. -/
structure InotifyEvent where
  /-- `wd`, as an unsigned word. -/
  wd : UInt32
  /-- `mask`. -/
  mask : UInt32
  /-- `cookie`. -/
  cookie : UInt32
  /-- `name`, empty when the event has none. -/
  name : CStr
  /-- `NAME_MAX`. -/
  short : name.bytes.length ≤ 255

namespace InotifyEvent

/-- `len`: a name and at least one NUL fill a multiple of sixteen bytes. -/
def len (event : InotifyEvent) : Nat :=
  if event.name.bytes = [] then 0 else (event.name.bytes.length / 16 + 1) * 16

/-- The event in memory. -/
def bytes (event : InotifyEvent) : Bytes :=
  wordBytes 4 event.wd.toNat ++ wordBytes 4 event.mask.toNat ++ wordBytes 4 event.cookie.toNat ++
    wordBytes 4 event.len ++ event.name.bytes ++
    List.replicate (event.len - event.name.bytes.length) 0

end InotifyEvent

/-- The loop over the events of one `read`, from an offset on. -/
def walkEvents (buf : Bytes) (got off : Nat) (saw : Bool) : Bool :=
  if off + 16 ≤ got then
    let len := wordValue ((buf.drop (off + 12)).take 4)
    walkEvents buf got (off + 16 + len)
      (if 0 < len ∧ lpIsCompletedSession (.ofBytes (buf.drop (off + 16))) then true else saw)
  else saw
termination_by got - off

/-- `lp_consume_inotify_events`, with the events each `read` returns before `EAGAIN`: the flag at
the end. -/
def lpConsumeInotifyEvents (buf : Bytes) : List (List InotifyEvent) → Bool → Bool
  | [], saw => saw
  | read :: later, saw =>
    let filled := overwrite buf 0 (read.flatMap InotifyEvent.bytes)
    lpConsumeInotifyEvents filled later
      (walkEvents filled (read.flatMap InotifyEvent.bytes).length 0 saw)

/-! ## The walk -/

namespace InotifyEvent

/-- The padding reaches behind the name. -/
theorem length_lt_len {event : InotifyEvent} (named : event.name.bytes ≠ []) :
    event.name.bytes.length < event.len := by
  rw [len, if_neg named]
  omega

/-- The header and the padded name. -/
theorem length_bytes (event : InotifyEvent) : event.bytes.length = 16 + event.len := by
  have padded : event.name.bytes.length ≤ event.len := by
    by_cases named : event.name.bytes = []
    · simp [named]
    · exact Nat.le_of_lt (length_lt_len named)
  simp only [bytes, List.length_append, length_wordBytes, List.length_replicate]
  omega

/-- Every event fits the buffer, so no `read` fails for lack of room. -/
theorem length_bytes_le (event : InotifyEvent) : event.bytes.length ≤ 4096 := by
  have short := event.short
  rw [length_bytes, len]
  split <;> omega

/-- The length is read from the header. -/
theorem len_read (event : InotifyEvent) (front behind : Bytes) :
    wordValue (((front ++ event.bytes ++ behind).drop (front.length + 12)).take 4) = event.len := by
  have small : event.len < 256 ^ 4 := by
    have whole := event.length_bytes_le
    rw [length_bytes] at whole
    omega
  have split : front ++ event.bytes ++ behind =
      (front ++ (wordBytes 4 event.wd.toNat ++ wordBytes 4 event.mask.toNat ++
        wordBytes 4 event.cookie.toNat)) ++ (wordBytes 4 event.len ++ (event.name.bytes ++
          List.replicate (event.len - event.name.bytes.length) 0 ++ behind)) := by
    simp only [bytes, List.append_assoc]
  rw [split, List.drop_left' (by simp), List.take_left' (by simp), wordValue_wordBytes small]

/-- The name is read up to its padding. -/
theorem name_read {event : InotifyEvent} (named : event.name.bytes ≠ []) (front behind : Bytes) :
    CStr.ofBytes ((front ++ event.bytes ++ behind).drop (front.length + 16)) = event.name := by
  have padding : List.replicate (event.len - event.name.bytes.length) (0 : UInt8) =
      0 :: List.replicate (event.len - event.name.bytes.length - 1) 0 := by
    have long := length_lt_len named
    rw [← List.replicate_succ]
    congr 1
    omega
  have split : front ++ event.bytes ++ behind =
      (front ++ (wordBytes 4 event.wd.toNat ++ wordBytes 4 event.mask.toNat ++
        wordBytes 4 event.cookie.toNat ++ wordBytes 4 event.len)) ++ (event.name.bytes ++
          0 :: (List.replicate (event.len - event.name.bytes.length - 1) 0 ++ behind)) := by
    simp only [bytes, padding, List.append_assoc, List.cons_append]
  have place : front.length + 16 = (front ++ (wordBytes 4 event.wd.toNat ++
      wordBytes 4 event.mask.toNat ++ wordBytes 4 event.cookie.toNat ++
        wordBytes 4 event.len)).length := by simp
  rw [split, place]
  exact CStr.ext (Tokens.stringAt_append event.name.nulFree _ _)

/-- An event sets the flag when it names the sentinel. -/
theorem sets_iff (event : InotifyEvent) (front behind : Bytes) (saw : Bool) :
    (if 0 < event.len ∧ lpIsCompletedSession
        (.ofBytes ((front ++ event.bytes ++ behind).drop (front.length + 16))) then true
      else saw) = (namesSentinel event.name || saw) := by
  by_cases named : event.name.bytes = []
  · have none : event.len = 0 := if_pos named
    rw [if_neg (by omega), namesSentinel]
    simp [named]
  · have long := length_lt_len named
    rw [name_read named, namesSentinel]
    cases lpIsCompletedSession event.name <;> simp [named, Nat.zero_lt_of_lt long]

end InotifyEvent

/-- The walk sees the events of the read, whatever is in front of them and behind. -/
theorem walkEvents_eq (events : List InotifyEvent) (front behind : Bytes) (saw : Bool) :
    walkEvents (front ++ events.flatMap InotifyEvent.bytes ++ behind)
        (front.length + (events.flatMap InotifyEvent.bytes).length) front.length saw =
      (events.any (fun event => namesSentinel event.name) || saw) := by
  induction events generalizing front saw with
  | nil =>
    rw [walkEvents, if_neg (by simp)]
    rfl
  | cons event events ih =>
    have header := event.length_bytes
    have split : front ++ (event :: events).flatMap InotifyEvent.bytes ++ behind =
        front ++ event.bytes ++ (events.flatMap InotifyEvent.bytes ++ behind) := by
      rw [List.flatMap_cons, List.append_assoc, List.append_assoc, List.append_assoc]
    have total : front.length + ((event :: events).flatMap InotifyEvent.bytes).length =
        (front ++ event.bytes).length + (events.flatMap InotifyEvent.bytes).length := by
      rw [List.flatMap_cons, List.length_append, List.length_append, Nat.add_assoc]
    have next : front.length + 16 + event.len = (front ++ event.bytes).length := by
      rw [List.length_append, header, Nat.add_assoc]
    rw [walkEvents, if_pos (by rw [total, ← next]; omega), split]
    simp only [event.len_read, event.sets_iff]
    rw [total, next, ← List.append_assoc, ih, List.any_cons]
    cases namesSentinel event.name <;> simp

/-- The calls of `read` set the flag for the events they return, whatever the buffer held. -/
theorem lpConsumeInotifyEvents_eq (buf : Bytes) (reads : List (List InotifyEvent)) (saw : Bool) :
    lpConsumeInotifyEvents buf reads saw =
      (reads.flatten.any (fun event => namesSentinel event.name) || saw) := by
  induction reads generalizing buf saw with
  | nil => rfl
  | cons read later ih =>
    have walked := walkEvents_eq read [] (buf.drop (read.flatMap InotifyEvent.bytes).length) saw
    rw [List.length_nil, Nat.zero_add, List.nil_append] at walked
    have filled : overwrite buf 0 (read.flatMap InotifyEvent.bytes) =
        read.flatMap InotifyEvent.bytes ++ buf.drop (read.flatMap InotifyEvent.bytes).length := by
      rw [overwrite, List.take_zero, List.nil_append, Nat.zero_add]
    rw [lpConsumeInotifyEvents, ih, filled, walked, List.flatten_cons, List.any_append]
    rw [← Bool.or_assoc, Bool.or_comm (later.flatten.any _)]

/-! ## The reads of the two loops -/

/-- The names of some events. -/
def eventNames (events : List InotifyEvent) : List CStr := events.map InotifyEvent.name

/-- The reads of the model, each of as many events. -/
def takeReads (directory : Directory) (merger : Merger) (counts : List Nat) :
    Option (Directory × Merger) :=
  Runs.run (fun state count => state.2.take count state.1) (directory, merger) counts

/-- One read of either loop. -/
theorem take_of_loop {directory : Directory} {merger : Merger} {loop : Bool → MergerPc}
    (loops : loop = .consuming ∨ loop = .consumingDir) {saw : Bool} (here : merger.pc = loop saw)
    {events : List InotifyEvent} (nonempty : events ≠ []) {left : List CStr}
    (queue : directory.dirEvents = some (eventNames events ++ left)) :
    merger.take events.length directory =
      some ({ directory with dirEvents := some left },
        { merger with
          pc := loop (events.any (fun event => namesSentinel event.name) || saw) }) := by
  have count : events.length = (eventNames events).length := (List.length_map _).symm
  have read : directory.dirQueue.take events.length = eventNames events := by
    rw [Directory.dirQueue, queue, Option.getD_some, count, List.take_left]
  have rest : directory.dirQueue.drop events.length = left := by
    rw [Directory.dirQueue, queue, Option.getD_some, count, List.drop_left]
  have filled : eventNames events ≠ [] := fun none => nonempty (List.map_eq_nil_iff.mp none)
  have found : (eventNames events).any namesSentinel =
      events.any fun event => namesSentinel event.name := List.any_map
  rcases loops with rfl | rfl
  · rw [Merger.take, here]
    simp only [read, rest, found, if_neg filled]
  · rw [Merger.take, here]
    simp only [read, rest, found, if_neg filled]

/-- For every queue, every way to read it in parts and whatever the buffer on the stack holds: the
bytes lead the wait loop and the poll loop to the flag to which the reads of the model lead
them. -/
theorem takeReads_eq (buf : Bytes) (reads : List (List InotifyEvent))
    (filled : ∀ read ∈ reads, read ≠ []) (left : List CStr) (directory : Directory)
    (queue : directory.dirEvents = some (eventNames reads.flatten ++ left)) (merger : Merger)
    (loop : Bool → MergerPc) (loops : loop = .consuming ∨ loop = .consumingDir) (saw : Bool)
    (here : merger.pc = loop saw) :
    takeReads directory merger (reads.map List.length) =
      some ({ directory with dirEvents := some left },
        { merger with pc := loop (lpConsumeInotifyEvents buf reads saw) }) := by
  rw [lpConsumeInotifyEvents_eq]
  induction reads generalizing directory merger saw with
  | nil =>
    obtain ⟨bin, metaFile, sentinel, dirEvents, metaEvents⟩ := directory
    obtain ⟨pc, position, metaBuf, fsm, out, handed⟩ := merger
    cases queue
    cases here
    rfl
  | cons read later ih =>
    have events : directory.dirEvents = some (eventNames read ++ (eventNames later.flatten ++ left)) := by
      rw [queue, List.flatten_cons, eventNames, List.map_append, List.append_assoc]
      rfl
    have taken := take_of_loop loops here (filled read List.mem_cons_self) events
    have rest := ih (fun other member => filled other (List.mem_cons_of_mem read member))
      { directory with dirEvents := some (eventNames later.flatten ++ left) } rfl
      { merger with pc := loop (read.any (fun event => namesSentinel event.name) || saw) } _ rfl
    have flag : ((read :: later).flatten.any (fun event => namesSentinel event.name) || saw) =
        (later.flatten.any (fun event => namesSentinel event.name) ||
          (read.any (fun event => namesSentinel event.name) || saw)) := by
      rw [List.flatten_cons, List.any_append, Bool.or_left_comm, Bool.or_assoc]
    rw [takeReads, List.map_cons, Runs.run, taken, flag]
    exact rest

/-- The sentinel's event behind that of another file, over the rest of an earlier read. -/
theorem takeReads_eq_sentinel :
    takeReads ⟨true, none, true, some [.ofBytes (ascii "s.bin"), pipelineSentinelName], none⟩
        ⟨.consuming false, 0, [], .reset, [], []⟩ [2] =
      some (⟨true, none, true, some [], none⟩,
        ⟨.consuming (lpConsumeInotifyEvents (List.replicate 4096 46)
          [[⟨1, 8, 0, .ofBytes (ascii "s.bin"), by decide⟩, ⟨1, 8, 0, pipelineSentinelName, by decide⟩]]
          false), 0, [], .reset, [], []⟩) :=
  takeReads_eq (List.replicate 4096 46)
    [[⟨1, 8, 0, .ofBytes (ascii "s.bin"), by decide⟩, ⟨1, 8, 0, pipelineSentinelName, by decide⟩]]
    (by decide) [] ⟨true, none, true, some [.ofBytes (ascii "s.bin"), pipelineSentinelName], none⟩
    rfl ⟨.consuming false, 0, [], .reset, [], []⟩ .consuming (.inl rfl) false rfl

end StreamPipeline.Merge
