import StreamPipeline.Lib.DynamicBuffer
import StreamPipeline.Lib.Runs

/-!
# Calls on a buffer

The functions of `dynamic_buffer_t` work on its four fields. Sizes are machine words, every
reallocation can fail, and a failure is latched until the buffer is reset or freed. A call that
would write outside the memory has no reply.
-/

namespace StreamPipeline.Buffer

/-- `SIZE_MAX` as a word. -/
abbrev sizeLimit : UInt64 := 0xFFFFFFFFFFFFFFFF

/-- The fields of `dynamic_buffer_t`. -/
structure Fields where
  /-- The memory at `data`; none for `NULL`. -/
  data : Option Bytes
  /-- `len`. -/
  len : UInt64
  /-- `cap`. -/
  cap : UInt64
  /-- `failed`. -/
  failed : Bool

/-- What a call returns, and the fields it leaves. -/
structure Reply where
  /-- `0` or `-1`. -/
  status : Int
  /-- The fields. -/
  buffer : Fields

/-- What `realloc` does when it is called: it fails, or the new memory holds these bytes. -/
abbrev Allocation := Option (Nat → UInt8)

/-- The source of `dynamic_buffer_append_mem`, with its length. -/
inductive Source where
  /-- `NULL`. -/
  | null (len : UInt64)
  /-- Bytes outside the buffer. -/
  | block (bytes : Bytes) (fits : bytes.length < 2 ^ 64)

/-- The functions of the library. -/
inductive Call where
  /-- `dynamic_buffer_reserve`. -/
  | reserve (extra : UInt64)
  /-- `dynamic_buffer_append_char`. -/
  | appendChar (c : UInt8)
  /-- `dynamic_buffer_append_mem`. -/
  | appendMem (source : Source)
  /-- `dynamic_buffer_append_str`; none for `NULL`. -/
  | appendStr (text : Option { text : CStr // text.bytes.length < 2 ^ 64 })
  /-- `dynamic_buffer_reset`. -/
  | reset
  /-- `dynamic_buffer_free`. -/
  | free

/-- Half of the largest word can be doubled. -/
theorem toNat_double {next : UInt64} (room : ¬sizeLimit / 2 < next) :
    (next * 2).toNat = next.toNat * 2 := by
  have half : (sizeLimit / 2).toNat = 2 ^ 63 - 1 := rfl
  rw [UInt64.lt_iff_toNat_lt, half] at room
  rw [UInt64.toNat_mul]
  simp only [UInt64.reduceToNat]
  omega

/-- The capacity after doubling, in words. -/
def grow (need next : UInt64) (positive : 0 < next) : UInt64 :=
  if next < need then
    if large : sizeLimit / 2 < next then need
    else grow need (next * 2) (by
      have doubled := toNat_double large
      simp only [UInt64.lt_iff_toNat_lt, UInt64.reduceToNat] at positive ⊢
      omega)
  else next
termination_by need.toNat - next.toNat
decreasing_by
  rename_i short
  have doubled := toNat_double large
  simp only [UInt64.lt_iff_toNat_lt, UInt64.reduceToNat] at positive short
  omega

/-- Bytes written into the memory; none when one of them is outside. -/
def store (data : Option Bytes) (offset : UInt64) (source : Bytes) : Option Bytes :=
  data.bind fun memory =>
    if offset.toNat + source.length ≤ memory.length then
      some (overwrite memory offset.toNat source)
    else none

/-- `realloc`: the old bytes as far as they fit, and bytes of any value behind them. -/
def reallocate (fresh : Nat → UInt8) (data : Option Bytes) (size : UInt64) : Bytes :=
  (DynamicBuffer.enlarged fresh (data.getD []) size.toNat).take size.toNat

namespace Fields

/-- The zeroed buffer. -/
def zero : Fields := ⟨none, 0, 0, false⟩

/-- `data[0..len)`. -/
def content (buf : Fields) : Bytes := (buf.data.getD []).take buf.len.toNat

/-- `failed = 1` and `-1`. -/
def fail (buf : Fields) : Reply := ⟨-1, { buf with failed := true }⟩

/-- `need`: the content, the extra bytes and the terminator. -/
def need (buf : Fields) (extra : UInt64) : UInt64 := buf.len + extra + 1

/-- `next` at the start of the doubling. -/
def start (buf : Fields) : UInt64 := if buf.cap = 0 then 128 else buf.cap

/-- Doubling starts above zero. -/
theorem start_pos (buf : Fields) : 0 < buf.start := by
  unfold start
  split
  · decide
  · rename_i used
    simp only [← UInt64.toNat_inj, UInt64.lt_iff_toNat_lt, UInt64.reduceToNat] at used ⊢
    omega

/-- `next` as `realloc` gets it. -/
def next (buf : Fields) (extra : UInt64) : UInt64 := grow (buf.need extra) buf.start buf.start_pos

/-- `dynamic_buffer_reserve`. -/
def reserve (allocation : Allocation) (extra : UInt64) (buf : Fields) : Option Reply :=
  if buf.failed then some ⟨-1, buf⟩
  else if 0 < buf.cap ∧ buf.data = none then some buf.fail
  else if buf.data ≠ none ∧ buf.cap ≤ buf.len then some buf.fail
  else if sizeLimit - 1 - buf.len < extra then some buf.fail
  else if buf.need extra ≤ buf.cap then some ⟨0, buf⟩
  else
    match allocation with
    | none => some buf.fail
    | some fresh =>
      let data := reallocate fresh buf.data (buf.next extra)
      (store (some data) buf.len [0]).map fun data =>
        ⟨0, { buf with data := some data, cap := buf.next extra }⟩

/-- The bytes behind the content and the terminator behind them. -/
def put (source : Bytes) (size : UInt64) (buf : Fields) : Option Reply :=
  (store buf.data buf.len source).bind fun data =>
    (store (some data) (buf.len + size) [0]).map fun data =>
      ⟨0, { buf with data := some data, len := buf.len + size }⟩

/-- The bytes are put where they were reserved. -/
def append (allocation : Allocation) (source : Bytes) (size : UInt64) (buf : Fields) :
    Option Reply :=
  match buf.reserve allocation size with
  | none => none
  | some reply => if reply.status ≠ 0 then some reply.buffer.fail else reply.buffer.put source size

/-- `dynamic_buffer_append_char`. -/
def appendChar (allocation : Allocation) (c : UInt8) (buf : Fields) : Option Reply :=
  buf.append allocation [c] 1

/-- `dynamic_buffer_append_mem`. -/
def appendMem (allocation : Allocation) (source : Source) (buf : Fields) : Option Reply :=
  if buf.failed then some ⟨-1, buf⟩
  else
    match source with
    | .null len => if 0 < len then some buf.fail else buf.append allocation [] len
    | .block bytes _ => buf.append allocation bytes (.ofNat bytes.length)

/-- `dynamic_buffer_append_str`. -/
def appendStr (allocation : Allocation)
    (text : Option { text : CStr // text.bytes.length < 2 ^ 64 }) (buf : Fields) : Option Reply :=
  if buf.failed then some ⟨-1, buf⟩
  else
    match text with
    | none => some buf.fail
    | some text => buf.appendMem allocation (.block text.1.bytes text.2)

/-- `dynamic_buffer_reset`. -/
def reset (buf : Fields) : Option Reply :=
  match buf.data with
  | none => some ⟨0, ⟨none, 0, 0, false⟩⟩
  | some memory =>
    (store (some memory) 0 [0]).map fun memory => ⟨0, ⟨some memory, 0, buf.cap, false⟩⟩

end Fields

namespace Call

/-- One call; `realloc` does as the allocation says. -/
def run (call : Call) (allocation : Allocation) (buf : Fields) : Option Reply :=
  match call with
  | .reserve extra => buf.reserve allocation extra
  | .appendChar c => buf.appendChar allocation c
  | .appendMem source => buf.appendMem allocation source
  | .appendStr text => buf.appendStr allocation text
  | .reset => buf.reset
  | .free => some ⟨0, .zero⟩

/-- The bytes a call appends when it succeeds. -/
def text : Call → Bytes
  | .appendChar c => [c]
  | .appendMem (.block bytes _) => bytes
  | .appendStr (some text) => text.1.bytes
  | _ => []

/-- The calls that clear the latch. -/
def clears : Call → Bool
  | .reset | .free => true
  | _ => false

end Call

/-- A buffer in use. -/
structure Usage where
  /-- The fields. -/
  buffer : Fields
  /-- The bytes of the successful appends since the last reset or free. -/
  appended : Bytes

/-- A buffer before its first use. -/
def Usage.initial : Usage := ⟨.zero, []⟩

/-- One call on a buffer. -/
def Usage.step (usage : Usage) (event : Call × Allocation) : Option Usage :=
  (event.1.run event.2 usage.buffer).map fun (reply : Reply) => {
    buffer := reply.buffer
    appended :=
      if event.1.clears then []
      else if reply.status = 0 then usage.appended ++ event.1.text
      else usage.appended }

/-! ## Sizes -/

/-- Doubling reaches the need. -/
theorem le_grow (need next : UInt64) (positive : 0 < next) :
    need.toNat ≤ (grow need next positive).toNat := by
  fun_induction grow need next positive with
  | case1 => exact Nat.le_refl _
  | case2 _ _ _ _ ih => exact ih
  | case3 _ _ enough =>
    rw [UInt64.lt_iff_toNat_lt] at enough
    omega

/-- No doubling wraps: the capacity is the start doubled some times, or just the need. -/
theorem grow_eq (need next : UInt64) (positive : 0 < next) :
    (∃ times, (grow need next positive).toNat = next.toNat * 2 ^ times) ∨
      grow need next positive = need := by
  fun_induction grow need next positive with
  | case1 => exact .inr rfl
  | case2 next positive short room ih =>
    have doubled := toNat_double room
    rcases ih with ⟨times, same⟩ | same
    · exact .inl ⟨times + 1, by rw [same, doubled, Nat.pow_succ, Nat.mul_assoc, Nat.mul_comm 2]⟩
    · exact .inr same
  | case3 => exact .inl ⟨0, (Nat.mul_one _).symm⟩

namespace Fields

/-- The buffer is unallocated, or its content is inside its memory with the terminator behind it. -/
def Valid (buf : Fields) : Prop :=
  (buf.data = none ∧ buf.len = 0 ∧ buf.cap = 0) ∨
    ∃ memory, buf.data = some memory ∧ memory.length = buf.cap.toNat ∧ buf.len < buf.cap ∧
      memory[buf.len.toNat]? = some 0

/-- The extra bytes the overflow check lets through. -/
def Fits (buf : Fields) (extra : UInt64) : Prop := ¬sizeLimit - 1 - buf.len < extra

/-- The zeroed buffer is valid. -/
theorem valid_zero : zero.Valid := .inl ⟨rfl, rfl, rfl⟩

variable {buf : Fields}

/-- The length leaves room for a terminator. -/
theorem Valid.len_lt (valid : buf.Valid) : buf.len.toNat < 2 ^ 64 - 1 := by
  rcases valid with ⟨-, none, -⟩ | ⟨memory, -, -, inside, -⟩
  · rw [none]
    decide
  · have limit := buf.cap.toNat_lt
    rw [UInt64.lt_iff_toNat_lt] at inside
    omega

/-- The limit of the overflow check does not wrap. -/
theorem Valid.limit_toNat (valid : buf.Valid) :
    (sizeLimit - 1 - buf.len).toNat = 2 ^ 64 - 2 - buf.len.toNat := by
  have room := valid.len_lt
  rw [UInt64.toNat_sub_of_le]
  · rfl
  · rw [UInt64.le_iff_toNat_le]
    show buf.len.toNat ≤ 2 ^ 64 - 2
    omega

/-- The need does not wrap. -/
theorem Valid.need_toNat (valid : buf.Valid) {extra : UInt64} (fits : buf.Fits extra) :
    (buf.need extra).toNat = buf.len.toNat + extra.toNat + 1 := by
  have room := valid.len_lt
  have limit := valid.limit_toNat
  rw [Fits, UInt64.lt_iff_toNat_lt, limit] at fits
  rw [need, UInt64.toNat_add, UInt64.toNat_add, UInt64.toNat_one]
  omega

/-- The new memory has the size asked for and keeps the bytes before the old length. -/
theorem reallocate_spec (fresh : Nat → UInt8) {data : Option Bytes} {size : UInt64} {len : Nat}
    (inside : len ≤ (data.getD []).length) (larger : (data.getD []).length ≤ size.toNat) :
    (reallocate fresh data size).length = size.toNat ∧
      (reallocate fresh data size).take len = (data.getD []).take len := by
  have size := DynamicBuffer.length_enlarged fresh larger
  rw [reallocate, List.take_of_length_le (Nat.le_of_eq size)]
  refine ⟨size, ?_⟩
  rw [DynamicBuffer.enlarged, List.take_append_of_le_length inside]

/-- Bytes inside the memory are stored. -/
theorem store_some (memory : Bytes) {offset : UInt64} {source : Bytes}
    (inside : offset.toNat + source.length ≤ memory.length) :
    ∃ stored, store (some memory) offset source = some stored ∧
      stored.length = memory.length ∧
      stored.take (offset.toNat + source.length) = memory.take offset.toNat ++ source ∧
      ∀ {index}, index < offset.toNat → stored[index]? = memory[index]? := by
  have start : (memory.take offset.toNat).length = offset.toNat :=
    List.length_take_of_le (by omega)
  refine ⟨overwrite memory offset.toNat source, ?_, ?_, ?_, ?_⟩
  · rw [store, Option.bind_some, if_pos inside]
  · simp only [overwrite, List.length_append, List.length_drop, start]
    omega
  · rw [overwrite, List.take_append_of_le_length (by simp [start]),
      List.take_of_length_le (by simp [start])]
  · intro index before
    rw [overwrite, List.append_assoc, List.getElem?_append_left (by omega),
      List.getElem?_take_of_lt before]

/-- A terminator inside the memory is stored and leaves the bytes before it. -/
theorem store_terminator (memory : Bytes) (offset : UInt64)
    (inside : offset.toNat < memory.length) :
    ∃ stored, store (some memory) offset [0] = some stored ∧ stored.length = memory.length ∧
      stored[offset.toNat]? = some 0 ∧
        stored.take offset.toNat = memory.take offset.toNat := by
  have start : (memory.take offset.toNat).length = offset.toNat :=
    List.length_take_of_le (by omega)
  obtain ⟨stored, found, length, front, -⟩ :=
    store_some memory (show offset.toNat + ([0] : Bytes).length ≤ memory.length from inside)
  refine ⟨stored, found, length, ?_, ?_⟩
  · have last : (stored.take (offset.toNat + 1))[offset.toNat]? = some 0 := by
      rw [show offset.toNat + 1 = offset.toNat + ([0] : Bytes).length from rfl, front,
        List.getElem?_append_right (by omega), start, Nat.sub_self]
      rfl
    rwa [List.getElem?_take_of_lt (Nat.lt_succ_self _)] at last
  · have cut := congrArg (List.take offset.toNat) front
    rwa [List.take_take, Nat.min_eq_left (by simp), List.take_append_of_le_length (by omega),
      List.take_take, Nat.min_self] at cut

/-! ## Replies -/

/-- The call was refused: only the latch is set. -/
def Refused (buf : Fields) (reply : Reply) : Prop :=
  reply.status = -1 ∧ reply.buffer = { buf with failed := true }

/-- There is memory with room for the extra bytes, and the content is the same. -/
structure Reserved (buf : Fields) (extra : UInt64) (grown : Fields) : Prop where
  /-- The buffer stays valid. -/
  valid : grown.Valid
  /-- The latch is clear. -/
  sound : grown.failed = false
  /-- The length is the same. -/
  len : grown.len = buf.len
  /-- The content is the same. -/
  content : grown.content = buf.content
  /-- The room. -/
  room : buf.len.toNat + extra.toNat < grown.cap.toNat

/-- A failed buffer refuses. -/
theorem refused_of_failed (failed : buf.failed = true) : buf.Refused ⟨-1, buf⟩ := by
  refine ⟨rfl, ?_⟩
  cases buf
  simp_all

/-- Setting the latch refuses. -/
theorem refused_fail (buf : Fields) : buf.Refused buf.fail := ⟨rfl, rfl⟩

/-- A reallocation to a size above the need keeps the content and terminates it. -/
theorem Valid.reallocated (valid : buf.Valid) (sound : buf.failed = false)
    (fresh : Nat → UInt8) {extra : UInt64}
    (fits : buf.Fits extra) (short : ¬buf.need extra ≤ buf.cap) :
    ∃ data, store (some (reallocate fresh buf.data (buf.next extra))) buf.len [0] = some data ∧
      buf.Reserved extra { buf with data := some data, cap := buf.next extra } := by
  have need := valid.need_toNat fits
  have enough := le_grow (buf.need extra) buf.start buf.start_pos
  rw [UInt64.le_iff_toNat_le] at short
  change (buf.need extra).toNat ≤ (buf.next extra).toNat at enough
  have old : (buf.data.getD []).length = buf.cap.toNat ∧
      buf.len.toNat ≤ (buf.data.getD []).length := by
    rcases valid with ⟨data, len, cap⟩ | ⟨memory, data, length, inside, -⟩
    · rw [data, len, cap]
      exact ⟨rfl, Nat.le_refl _⟩
    · rw [UInt64.lt_iff_toNat_lt] at inside
      rw [data, Option.getD_some]
      omega
  obtain ⟨length, kept⟩ := reallocate_spec fresh old.2
    (show (buf.data.getD []).length ≤ (buf.next extra).toNat by omega)
  obtain ⟨data, stored, size, terminated, front⟩ := store_terminator
    (reallocate fresh buf.data (buf.next extra)) buf.len (by omega)
  have inside : buf.len < buf.next extra := by
    rw [UInt64.lt_iff_toNat_lt]
    omega
  refine ⟨data, stored, .inr ⟨data, rfl, by rw [size, length], inside, terminated⟩, sound, rfl, ?_,
    ?_⟩
  · show data.take buf.len.toNat = _
    rw [front, kept, content]
  · show _ < (buf.next extra).toNat
    omega

/-- A reservation is refused, or there is room. -/
theorem Valid.reserve_cases (valid : buf.Valid) (allocation : Allocation) (extra : UInt64) :
    ∃ reply, buf.reserve allocation extra = some reply ∧
      (buf.Refused reply ∨
        buf.failed = false ∧ reply.status = 0 ∧ buf.Reserved extra reply.buffer) := by
  unfold reserve
  split
  · rename_i failed
    exact ⟨_, rfl, .inl (refused_of_failed failed)⟩
  rename_i sound
  rw [Bool.not_eq_true] at sound
  split
  · exact ⟨_, rfl, .inl (refused_fail buf)⟩
  split
  · exact ⟨_, rfl, .inl (refused_fail buf)⟩
  split
  · exact ⟨_, rfl, .inl (refused_fail buf)⟩
  rename_i fits
  have need := valid.need_toNat fits
  split
  · rename_i enough
    rw [UInt64.le_iff_toNat_le] at enough
    have room : buf.len.toNat + extra.toNat < buf.cap.toNat := by omega
    exact ⟨⟨0, buf⟩, rfl, .inr ⟨sound, rfl, valid, sound, rfl, rfl, room⟩⟩
  rename_i short
  split
  · exact ⟨_, rfl, .inl (refused_fail buf)⟩
  · rename_i fresh
    obtain ⟨data, stored, reserved⟩ := valid.reallocated sound fresh fits short
    exact ⟨⟨0, _⟩, by simp only [stored]; rfl, .inr ⟨sound, rfl, reserved⟩⟩

/-- Bytes that have room are put behind the content. -/
theorem Valid.put_spec (valid : buf.Valid) {source : Bytes} {size : UInt64}
    (length : source.length = size.toNat) (room : buf.len.toNat + size.toNat < buf.cap.toNat) :
    ∃ after, buf.put source size = some ⟨0, after⟩ ∧ after.Valid ∧ after.failed = buf.failed ∧
      after.content = buf.content ++ source := by
  have limit := buf.cap.toNat_lt
  have sum : (buf.len + size).toNat = buf.len.toNat + source.length := by
    rw [UInt64.toNat_add]
    omega
  rcases valid with ⟨-, -, none⟩ | ⟨memory, data, capacity, -, -⟩
  · rw [none] at room
    contradiction
  obtain ⟨copied, found, copiedLength, front, -⟩ := store_some memory
    (show buf.len.toNat + source.length ≤ memory.length by omega)
  obtain ⟨stored, put, storedLength, terminated, kept⟩ := store_terminator copied
    (buf.len + size) (by omega)
  have inside : buf.len + size < buf.cap := by
    rw [UInt64.lt_iff_toNat_lt]
    omega
  refine ⟨{ buf with data := some stored, len := buf.len + size }, ?_, ?_, rfl, ?_⟩
  · rw [Fields.put, data, found, Option.bind_some, put]
    rfl
  · exact .inr ⟨stored, rfl, by rw [storedLength, copiedLength, capacity], inside, terminated⟩
  · show stored.take (buf.len + size).toNat = _
    rw [kept, sum, front, content, data, Option.getD_some]

/-- The bytes were appended and the latch is clear. -/
structure Appended (buf : Fields) (source : Bytes) (reply : Reply) : Prop where
  /-- `0`. -/
  status : reply.status = 0
  /-- The latch was clear. -/
  before : buf.failed = false
  /-- The latch is clear. -/
  after : reply.buffer.failed = false
  /-- The buffer stays valid. -/
  valid : reply.buffer.Valid
  /-- The bytes stand behind the content. -/
  content : reply.buffer.content = buf.content ++ source

/-- An append is refused, or it appends its bytes. -/
theorem Valid.append_cases (valid : buf.Valid) (allocation : Allocation) {source : Bytes}
    {size : UInt64} (length : source.length = size.toNat) :
    ∃ reply, buf.append allocation source size = some reply ∧
      (buf.Refused reply ∨ buf.Appended source reply) := by
  obtain ⟨reserve, found, outcome⟩ := valid.reserve_cases allocation size
  unfold append
  rw [found]
  rcases outcome with refused | ⟨sound, status, reserved⟩
  · refine ⟨reserve.buffer.fail, ?_, .inl ⟨rfl, ?_⟩⟩
    · simp [refused.1]
    · rw [fail, refused.2]
  · obtain ⟨after, put, afterValid, latch, content⟩ := reserved.valid.put_spec length (by
      rw [reserved.len]
      exact reserved.room)
    refine ⟨_, by simpa [status] using put, .inr ⟨rfl, sound, ?_, afterValid, ?_⟩⟩
    · rw [latch, reserved.sound]
    · rw [content, reserved.content]

/-- A buffer is refused nothing by a reset. -/
theorem Valid.reset_spec (valid : buf.Valid) :
    ∃ after, buf.reset = some ⟨0, after⟩ ∧ after.Valid ∧ after.failed = false ∧
      after.content = [] := by
  unfold reset
  rcases valid with ⟨data, -, -⟩ | ⟨memory, data, capacity, inside, -⟩
  · rw [data]
    exact ⟨_, rfl, valid_zero, rfl, rfl⟩
  · rw [UInt64.lt_iff_toNat_lt] at inside
    obtain ⟨stored, found, length, terminated, -⟩ := store_terminator memory 0
      (show 0 < memory.length by omega)
    have positive : 0 < buf.cap := by
      rw [UInt64.lt_iff_toNat_lt]
      exact Nat.zero_lt_of_lt inside
    rw [data]
    exact ⟨_, by simp only [found]; rfl,
      .inr ⟨stored, rfl, by rw [length, capacity], positive, terminated⟩, rfl, rfl⟩

end Fields

/-- A call is refused, or it succeeds with its effect on the content. -/
theorem Call.run_cases {buf : Fields} (valid : buf.Valid) (call : Call) (allocation : Allocation) :
    ∃ reply, call.run allocation buf = some reply ∧
      (call.clears = false ∧ buf.Refused reply ∨
        reply.status = 0 ∧ reply.buffer.Valid ∧ (call.clears = false → buf.failed = false) ∧
          reply.buffer.content = if call.clears then [] else buf.content ++ call.text) := by
  have appended {source : Bytes} {size : UInt64} (length : source.length = size.toNat) :
      ∃ reply, buf.append allocation source size = some reply ∧
        (buf.Refused reply ∨ reply.status = 0 ∧ reply.buffer.Valid ∧ buf.failed = false ∧
          reply.buffer.content = buf.content ++ source) := by
    obtain ⟨reply, found, outcome⟩ := valid.append_cases allocation length
    exact ⟨reply, found, outcome.imp_right fun done =>
      ⟨done.status, done.valid, done.before, done.content⟩⟩
  have block (bytes : Bytes) (fits : bytes.length < 2 ^ 64) :
      ∃ reply, buf.appendMem allocation (.block bytes fits) = some reply ∧
        (buf.Refused reply ∨ reply.status = 0 ∧ reply.buffer.Valid ∧ buf.failed = false ∧
          reply.buffer.content = buf.content ++ bytes) := by
    unfold Fields.appendMem
    split
    · rename_i failed
      exact ⟨_, rfl, .inl (Fields.refused_of_failed failed)⟩
    · exact appended (by rw [UInt64.toNat_ofNat', Nat.mod_eq_of_lt fits])
  cases call with
  | reserve extra =>
    obtain ⟨reply, found, outcome⟩ := valid.reserve_cases allocation extra
    refine ⟨reply, found, ?_⟩
    rcases outcome with refused | ⟨sound, status, reserved⟩
    · exact .inl ⟨rfl, refused⟩
    · exact .inr ⟨status, reserved.valid, fun _ => sound, by
        simpa [text, clears] using reserved.content⟩
  | appendChar c =>
    obtain ⟨reply, found, outcome⟩ := appended
      (show ([c] : Bytes).length = (1 : UInt64).toNat from rfl)
    refine ⟨reply, found, ?_⟩
    rcases outcome with refused | ⟨status, kept, sound, content⟩
    · exact .inl ⟨rfl, refused⟩
    · exact .inr ⟨status, kept, fun _ => sound, content⟩
  | appendMem source =>
    cases source with
    | null len =>
      show ∃ reply, buf.appendMem allocation (.null len) = some reply ∧ _
      unfold Fields.appendMem
      split
      · rename_i failed
        exact ⟨_, rfl, .inl ⟨rfl, Fields.refused_of_failed failed⟩⟩
      dsimp only
      split
      · exact ⟨_, rfl, .inl ⟨rfl, Fields.refused_fail buf⟩⟩
      · rename_i empty
        rw [UInt64.lt_iff_toNat_lt] at empty
        obtain ⟨reply, found, outcome⟩ := appended
          (show ([] : Bytes).length = len.toNat from (Nat.eq_zero_of_not_pos empty).symm)
        refine ⟨reply, found, ?_⟩
        rcases outcome with refused | ⟨status, kept, sound, content⟩
        · exact .inl ⟨rfl, refused⟩
        · exact .inr ⟨status, kept, fun _ => sound, content⟩
    | block bytes fits =>
      obtain ⟨reply, found, outcome⟩ := block bytes fits
      refine ⟨reply, found, ?_⟩
      rcases outcome with refused | ⟨status, kept, sound, content⟩
      · exact .inl ⟨rfl, refused⟩
      · exact .inr ⟨status, kept, fun _ => sound, content⟩
  | appendStr text =>
    show ∃ reply, buf.appendStr allocation text = some reply ∧ _
    unfold Fields.appendStr
    split
    · rename_i failed
      exact ⟨_, rfl, .inl ⟨rfl, Fields.refused_of_failed failed⟩⟩
    cases text with
    | none => exact ⟨_, rfl, .inl ⟨rfl, Fields.refused_fail buf⟩⟩
    | some text =>
      obtain ⟨reply, found, outcome⟩ := block text.1.bytes text.2
      refine ⟨reply, found, ?_⟩
      rcases outcome with refused | ⟨status, kept, sound, content⟩
      · exact .inl ⟨rfl, refused⟩
      · exact .inr ⟨status, kept, fun _ => sound, content⟩
  | reset =>
    obtain ⟨after, found, kept, -, content⟩ := valid.reset_spec
    exact ⟨⟨0, after⟩, found, .inr ⟨rfl, kept, fun _ => by contradiction, content⟩⟩
  | free =>
    exact ⟨⟨0, .zero⟩, rfl, .inr ⟨rfl, Fields.valid_zero, fun _ => by contradiction, rfl⟩⟩

/-! ## Buffers that have not failed -/

namespace Fields

variable {buf : Fields}

/-- A valid buffer as content in front of a terminator. -/
def typed (buf : Fields) (valid : buf.Valid) : DynamicBuffer where
  data := buf.data.getD []
  len := buf.len.toNat
  terminated := by
    rcases valid with ⟨data, len, -⟩ | ⟨memory, data, -, -, terminated⟩
    · rw [data, len]
      exact .inr ⟨rfl, rfl⟩
    · rw [data]
      exact .inl terminated

/-- The overflow check of the words is that of the sizes. -/
theorem Valid.fits_iff (valid : buf.Valid) {extra : UInt64} :
    buf.Fits extra ↔ buf.len.toNat + extra.toNat ≤ sizeMax - 1 := by
  have limit := valid.limit_toNat
  have room := valid.len_lt
  rw [Fits, UInt64.lt_iff_toNat_lt, limit, sizeMax]
  omega

/-- Without a failing reallocation the overflow check alone refuses. -/
theorem Valid.reserve_status (valid : buf.Valid) (sound : buf.failed = false)
    (fresh : Nat → UInt8) (extra : UInt64) {reply : Reply}
    (found : buf.reserve (some fresh) extra = some reply) :
    reply.status = 0 ↔ buf.Fits extra := by
  have null : ¬(0 < buf.cap ∧ buf.data = none) := by
    rcases valid with ⟨-, -, cap⟩ | ⟨memory, data, -⟩
    · simp [cap]
    · simp [data]
  have inside : ¬(buf.data ≠ none ∧ buf.cap ≤ buf.len) := by
    rcases valid with ⟨data, -⟩ | ⟨memory, -, -, inside, -⟩
    · simp [data]
    · simp [inside]
  unfold reserve at found
  rw [if_neg (by simp [sound]), if_neg null, if_neg inside] at found
  split at found
  · rename_i large
    rw [← Option.some.inj found]
    exact iff_of_false (by simp [fail]) (fun fits => fits large)
  · rename_i fits
    split at found
    · rw [← Option.some.inj found]
      exact iff_of_true rfl fits
    · rename_i short
      obtain ⟨data, stored, -⟩ := valid.reallocated sound fresh fits short
      simp only [stored, Option.map_some, Option.some.injEq] at found
      rw [← found]
      exact iff_of_true rfl fits

/-- Without a failing reallocation the overflow check alone refuses an append. -/
theorem Valid.append_status (valid : buf.Valid) (sound : buf.failed = false)
    (fresh : Nat → UInt8) {source : Bytes} {size : UInt64} (length : source.length = size.toNat)
    {reply : Reply} (found : buf.append (some fresh) source size = some reply) :
    reply.status = 0 ↔ buf.Fits size := by
  obtain ⟨reserve, reserved, outcome⟩ := valid.reserve_cases (some fresh) size
  have status := valid.reserve_status sound fresh size reserved
  rw [append, reserved] at found
  rcases outcome with refused | ⟨-, granted, room⟩
  · rw [refused.1] at status
    dsimp only at found
    rw [refused.1, if_pos (by decide)] at found
    rw [← status, ← Option.some.inj found]
    exact Iff.rfl
  · obtain ⟨after, put, -⟩ := room.valid.put_spec length (by
      rw [room.len]
      exact room.room)
    simp only [granted, ne_eq, not_true_eq_false, ↓reduceIte, put, Option.some.injEq] at found
    rw [← status, ← found, granted]

/-- Without a failing reallocation an append is the one on content in front of a terminator: it
succeeds when that does, and leaves the same content. -/
theorem Valid.append_typed (valid : buf.Valid) (sound : buf.failed = false)
    (fresh : Nat → UInt8) {source : Bytes} {size : UInt64} (length : source.length = size.toNat) :
    ∃ reply, buf.append (some fresh) source size = some reply ∧
      ((buf.typed valid).appendMem fresh source).map DynamicBuffer.content =
        if reply.status = 0 then some reply.buffer.content else none := by
  obtain ⟨reply, found, outcome⟩ := valid.append_cases (some fresh) length
  have status := valid.append_status sound fresh length found
  rw [valid.fits_iff, ← length] at status
  refine ⟨reply, found, ?_⟩
  have positive : 0 < sizeMax := by decide
  rcases outcome with refused | done
  · have failed : ¬reply.status = 0 := by
      rw [refused.1]
      decide
    have large : sizeMax - 1 - (buf.typed valid).len < source.length := by
      have full := mt status.mpr failed
      have inside : buf.len.toNat < sizeMax := valid.len_lt
      show sizeMax - 1 - buf.len.toNat < source.length
      omega
    have none := DynamicBuffer.appendMem_large fresh large
    rw [if_neg failed, none, Option.map_none]
  · have room : (buf.typed valid).len + source.length < sizeMax := by
      have fits := status.mp done.status
      show buf.len.toNat + source.length < sizeMax
      omega
    obtain ⟨grown, put, content⟩ := (buf.typed valid).appendMem_content fresh room
    rw [if_pos done.status, put, Option.map_some, content, done.content]
    rfl

end Fields

/-! ## Runs -/

/-- What successive calls return; none when one of them writes outside the memory. -/
def returned : Fields → List (Call × Allocation) → Option (List Int)
  | _, [] => some []
  | buf, event :: events =>
    match event.1.run event.2 buf with
    | none => none
    | some reply => (returned reply.buffer events).map (reply.status :: ·)

/-- Every append and every reservation is refused until the buffer is reset or freed. -/
def Fields.Latched (buf : Fields) : Prop :=
  ∀ later : List (Call × Allocation), (∀ event ∈ later, event.1.clears = false) →
    returned buf later = some (later.map fun _ => -1)

/-- A valid buffer that has failed is latched. -/
theorem Fields.Valid.latched {buf : Fields} (valid : buf.Valid) (failed : buf.failed = true) :
    buf.Latched := by
  intro later kept
  induction later with
  | nil => rfl
  | cons event later ih =>
    have here := kept event List.mem_cons_self
    have rest := ih fun other member => kept other (List.mem_cons_of_mem event member)
    obtain ⟨reply, found, outcome⟩ := event.1.run_cases valid event.2
    rcases outcome with ⟨-, status, same⟩ | ⟨-, -, sound, -⟩
    · have unchanged : reply.buffer = buf := by
        rw [same]
        cases buf
        simp_all
      rw [returned, found]
      simp only [unchanged, rest, status, Option.map_some, List.map_cons]
    · rw [sound here] at failed
      contradiction

/-- What a buffer guarantees between calls. -/
structure Usage.Sound (usage : Usage) : Prop where
  /-- Without a failure the buffer is unallocated, or its length is below its capacity and the
  terminator stands behind the content. -/
  terminated : usage.buffer.failed = false →
    (usage.buffer.data = none ∧ usage.buffer.len = 0 ∧ usage.buffer.cap = 0) ∨
      ∃ memory, usage.buffer.data = some memory ∧ memory.length = usage.buffer.cap.toNat ∧
        usage.buffer.len < usage.buffer.cap ∧ memory[usage.buffer.len.toNat]? = some 0
  /-- Without a failure the content is what was appended. -/
  content : usage.buffer.failed = false → usage.buffer.content = usage.appended
  /-- Every call stays inside the memory; one that fails leaves the content and latches. -/
  replies : ∀ (call : Call) (allocation : Allocation), ∃ reply : Reply,
    call.run allocation usage.buffer = some reply ∧
    (reply.status = 0 ∨ reply.status = -1 ∧ reply.buffer.len = usage.buffer.len ∧
      reply.buffer.content = usage.buffer.content ∧ reply.buffer.failed = true ∧
        reply.buffer.Latched)
  /-- The doubling reaches the need, and neither of them wraps. -/
  sizes : ∀ extra, usage.buffer.Fits extra →
    (usage.buffer.need extra).toNat = usage.buffer.len.toNat + extra.toNat + 1 ∧
      usage.buffer.need extra ≤ usage.buffer.next extra ∧
      ((∃ times, (usage.buffer.next extra).toNat = usage.buffer.start.toNat * 2 ^ times) ∨
        usage.buffer.next extra = usage.buffer.need extra)
  /-- A successful reservation leaves room for the extra bytes and a terminator. -/
  room : ∀ (extra : UInt64) (allocation : Allocation) (reply : Reply),
    usage.buffer.reserve allocation extra = some reply → reply.status = 0 →
      reply.buffer.data ≠ none ∧
        usage.buffer.len.toNat + extra.toNat + 1 ≤ reply.buffer.cap.toNat

/-- The content is what was appended, and the buffer is valid, failed or not. -/
def Usage.Kept (usage : Usage) : Prop :=
  usage.buffer.Valid ∧ usage.buffer.content = usage.appended

/-- Every call keeps the content and the validity. -/
theorem Usage.Kept.step {usage next : Usage} (kept : usage.Kept) (event : Call × Allocation)
    (stepped : usage.step event = some next) : next.Kept := by
  obtain ⟨valid, content⟩ := kept
  obtain ⟨reply, found, outcome⟩ := event.1.run_cases valid event.2
  rw [Usage.step, found, Option.map_some, Option.some.injEq] at stepped
  subst stepped
  rcases outcome with ⟨append, status, same⟩ | ⟨status, after, -, effect⟩
  · refine ⟨?_, ?_⟩
    · show reply.buffer.Valid
      rw [same]
      exact valid
    · show reply.buffer.content = if event.1.clears then [] else _
      simpa [append, status, same, Fields.content] using content
  · refine ⟨after, ?_⟩
    show reply.buffer.content = if event.1.clears then [] else _
    rw [effect, if_pos status, content]

/-- A valid buffer gives its guarantees. -/
theorem Usage.Kept.sound {usage : Usage} (kept : usage.Kept) : usage.Sound := by
  obtain ⟨valid, content⟩ := kept
  constructor
  · exact fun _ => valid
  · exact fun _ => content
  · intro call allocation
    obtain ⟨reply, found, outcome⟩ := call.run_cases valid allocation
    refine ⟨reply, found, ?_⟩
    rcases outcome with ⟨-, status, same⟩ | ⟨status, -⟩
    · have after : reply.buffer.Valid := by
        rw [same]
        exact valid
      have failed : reply.buffer.failed = true := by rw [same]
      exact .inr ⟨status, by rw [same], by rw [same]; rfl, failed, after.latched failed⟩
    · exact .inl status
  · intro extra fits
    exact ⟨valid.need_toNat fits, UInt64.le_iff_toNat_le.mpr (le_grow _ _ _), grow_eq _ _ _⟩
  · intro extra allocation reply found status
    obtain ⟨other, same, outcome⟩ := valid.reserve_cases allocation extra
    obtain rfl : reply = other := Option.some.inj (found.symm.trans same)
    rcases outcome with refused | ⟨-, -, reserved⟩
    · rw [refused.1] at status
      contradiction
    · refine ⟨?_, reserved.room⟩
      rcases reserved.valid with ⟨-, -, none⟩ | ⟨memory, data, -⟩
      · have room := reserved.room
        rw [none] at room
        contradiction
      · rw [data]
        exact Option.some_ne_none memory

/-- After any calls, whatever their sizes and whichever reallocations fail, the buffer gives its
guarantees. -/
theorem buffer_sound (calls : List (Call × Allocation)) :
    ∃ usage, Runs.run Usage.step .initial calls = some usage ∧ usage.Sound := by
  have start : Usage.initial.Kept := ⟨Fields.valid_zero, rfl⟩
  have runs : ∀ (calls : List (Call × Allocation)) (usage : Usage), usage.Kept →
      ∃ last, Runs.run Usage.step usage calls = some last ∧ last.Kept := by
    intro calls
    induction calls with
    | nil => exact fun usage kept => ⟨usage, rfl, kept⟩
    | cons event calls ih =>
      intro usage kept
      obtain ⟨reply, found, -⟩ := event.1.run_cases kept.1 event.2
      have stepped : ∃ next, usage.step event = some next := by
        rw [Usage.step, found]
        exact ⟨_, rfl⟩
      obtain ⟨next, stepped⟩ := stepped
      rw [Runs.run, stepped]
      exact ih next (kept.step event stepped)
  obtain ⟨usage, ran, kept⟩ := runs calls .initial start
  exact ⟨usage, ran, kept.sound⟩

end StreamPipeline.Buffer
