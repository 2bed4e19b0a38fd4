import StreamPipeline.Lib.Lines

/-!
# Growing byte buffers

`dynamic_buffer_t` keeps its content in front of a terminator. The terminator is part of the
type; what the memory behind it holds is left open, and a reallocation adds bytes of any value.
A buffer that has failed is not used again, so a failure is the absence of a buffer.
-/

namespace StreamPipeline

/-- `SIZE_MAX`. -/
def sizeMax : Nat := 2 ^ 64 - 1

/-- `memcpy` and `memmove` into memory at an offset. -/
def overwrite (memory : Bytes) (start : Nat) (source : Bytes) : Bytes :=
  memory.take start ++ source ++ memory.drop (start + source.length)

/-- `memchr` — the offset of the first such byte. -/
def memchr (byte : UInt8) (memory : Bytes) : Option Nat :=
  (cutAt byte memory).map fun parts => parts.1.length

/-- The byte found splits the memory. -/
theorem cutAt_of_memchr {byte : UInt8} {memory : Bytes} {nl : Nat}
    (found : memchr byte memory = some nl) :
    nl < memory.length ∧ cutAt byte memory = some (memory.take nl, memory.drop (nl + 1)) := by
  obtain ⟨⟨left, right⟩, split, rfl⟩ := Option.map_eq_some_iff.mp found
  have shape := (cutAt_some split).1
  rw [split, shape]
  simp

/-- A byte that is not found is not there. -/
theorem cutAt_of_memchr_none {byte : UInt8} {memory : Bytes} (missing : memchr byte memory = none) :
    cutAt byte memory = none := Option.map_eq_none_iff.mp missing

/-- `dynamic_buffer_t`. -/
structure DynamicBuffer where
  /-- `data[0..cap)`, empty before the first allocation. -/
  data : Bytes
  /-- `len`. -/
  len : Nat
  /-- `data[len]` is the terminator, unless nothing was allocated. -/
  terminated : data[len]? = some 0 ∨ data = [] ∧ len = 0

namespace DynamicBuffer

/-- The zeroed buffer. -/
def empty : DynamicBuffer := ⟨[], 0, .inr ⟨rfl, rfl⟩⟩

/-- The bytes of the caller, `data[0..len)`. -/
def content (buffer : DynamicBuffer) : Bytes := buffer.data.take buffer.len

/-- The capacity after doubling. -/
def doubled (need next : Nat) (positive : 0 < next) : Nat :=
  if next < need then
    if sizeMax / 2 < next then need else doubled need (next * 2) (by omega)
  else next
termination_by need - next

/-- Doubling reaches the need. -/
theorem le_doubled (need next : Nat) (positive : 0 < next) : need ≤ doubled need next positive := by
  fun_induction doubled need next positive with
  | case1 => exact Nat.le_refl _
  | case2 _ _ _ _ ih => exact ih
  | case3 _ _ enough => exact Nat.le_of_not_lt enough

/-- The content and its terminator are inside the memory. -/
theorem len_lt (buffer : DynamicBuffer) :
    buffer.len < buffer.data.length ∨ buffer.data = [] ∧ buffer.len = 0 := by
  rcases buffer.terminated with terminated | fresh
  · exact .inl (List.getElem?_eq_some_iff.mp terminated).1
  · exact .inr fresh

/-- The memory is at least as long as the content. -/
theorem len_le (buffer : DynamicBuffer) : buffer.len ≤ buffer.data.length := by
  have inside := buffer.len_lt
  omega

/-- The content has the length the buffer counts. -/
@[simp]
theorem length_content (buffer : DynamicBuffer) : buffer.content.length = buffer.len :=
  List.length_take_of_le buffer.len_le

/-- Memory with the terminator behind the content. -/
def terminate (data : Bytes) (len : Nat) (room : len < data.length) : DynamicBuffer where
  data := data.set len 0
  len := len
  terminated := .inl (List.getElem?_set_self room)

/-- The terminator is not part of the content. -/
@[simp]
theorem content_terminate (data : Bytes) (len : Nat) (room : len < data.length) :
    (terminate data len room).content = data.take len :=
  List.take_set_of_le (Nat.le_refl len)

/-- The capacity `dynamic_buffer_reserve` asks `realloc` for. -/
def capacity (buffer : DynamicBuffer) (need : Nat) : Nat :=
  if empty : buffer.data.length = 0 then doubled need 128 (by decide)
  else doubled need buffer.data.length (Nat.pos_of_ne_zero empty)

/-- The new capacity covers the need. -/
theorem le_capacity (buffer : DynamicBuffer) (need : Nat) : need ≤ buffer.capacity need := by
  rw [capacity]
  split <;> exact le_doubled _ _ _

section Growth

-- What the memory of a reallocation holds at each offset.
variable (fresh : Nat → UInt8)

/-- `realloc` to a larger capacity. -/
def enlarged (data : Bytes) (capacity : Nat) : Bytes :=
  data ++ (List.range (capacity - data.length)).map fun offset => fresh (data.length + offset)

/-- The memory has the new capacity. -/
theorem length_enlarged {data : Bytes} {capacity : Nat} (larger : data.length ≤ capacity) :
    (enlarged fresh data capacity).length = capacity := by
  simp [enlarged]
  omega

/-- `dynamic_buffer_reserve`. -/
def reserve (extra : Nat) (buffer : DynamicBuffer) : Option DynamicBuffer :=
  if sizeMax - 1 - buffer.len < extra then none
  else if fits : buffer.len + extra + 1 ≤ buffer.data.length then some buffer
  else
    let next := buffer.capacity (buffer.len + extra + 1)
    some (terminate (enlarged fresh buffer.data next) buffer.len (by
      have enough := buffer.le_capacity (buffer.len + extra + 1)
      rw [length_enlarged fresh (by omega)]
      omega))

/-- A reservation keeps the content and makes room behind it. -/
theorem reserve_some {extra : Nat} {buffer grown : DynamicBuffer}
    (reserved : buffer.reserve fresh extra = some grown) :
    grown.content = buffer.content ∧ grown.len = buffer.len ∧
      grown.len + extra < grown.data.length := by
  unfold reserve at reserved
  split at reserved
  · contradiction
  split at reserved
  · rename_i fits
    cases reserved
    exact ⟨rfl, rfl, by omega⟩
  · cases reserved
    have enough := buffer.le_capacity (buffer.len + extra + 1)
    have grown := length_enlarged fresh
      (show buffer.data.length ≤ buffer.capacity (buffer.len + extra + 1) by omega)
    refine ⟨?_, rfl, ?_⟩
    · rw [content_terminate, content, enlarged, List.take_append_of_le_length buffer.len_le]
    · simp only [terminate, List.length_set, grown]
      omega

/-- `dynamic_buffer_append_mem`. -/
def appendMem (source : Bytes) (buffer : DynamicBuffer) : Option DynamicBuffer :=
  match found : buffer.reserve fresh source.length with
  | none => none
  | some grown =>
    some (terminate (overwrite grown.data grown.len source) (grown.len + source.length) (by
      have room := (reserve_some fresh found).2.2
      simp only [overwrite, List.length_append, List.length_take, List.length_drop]
      omega))

/-- While the size fits, the bytes are put behind the content. -/
theorem appendMem_content {source : Bytes} {buffer : DynamicBuffer}
    (room : buffer.len + source.length < sizeMax) :
    ∃ grown, buffer.appendMem fresh source = some grown ∧
      grown.content = buffer.content ++ source := by
  have reserved : ∃ grown, buffer.reserve fresh source.length = some grown := by
    unfold reserve
    rw [if_neg (by omega)]
    split <;> exact ⟨_, rfl⟩
  obtain ⟨grown, found⟩ := reserved
  have kept := reserve_some fresh found
  unfold appendMem
  split
  · rename_i missing
    rw [found] at missing
    contradiction
  · rename_i other same
    obtain rfl : grown = other := Option.some.inj (found.symm.trans same)
    refine ⟨_, rfl, ?_⟩
    have inside : (grown.data.take grown.len).length = grown.len := grown.length_content
    rw [content_terminate, overwrite, List.take_append_of_le_length (by simp [inside]),
      List.take_of_length_le (by simp [inside]), ← kept.1, content]

/-- A size that does not fit is refused. -/
theorem appendMem_large {source : Bytes} {buffer : DynamicBuffer}
    (large : sizeMax - 1 - buffer.len < source.length) : buffer.appendMem fresh source = none := by
  have none : buffer.reserve fresh source.length = none := if_pos large
  unfold appendMem
  split
  · rfl
  · rename_i grown found
    rw [none] at found
    contradiction

end Growth

/-! ## Lines inside the buffer -/

/-- `data` as a string while the byte at an offset is replaced by a terminator. -/
def textBefore (buffer : DynamicBuffer) (nl : Nat) : CStr := .ofBytes (buffer.data.set nl 0)

/-- The string ends before the offset at the latest. -/
theorem textBefore_eq {buffer : DynamicBuffer} {nl : Nat} (inside : nl < buffer.len) :
    buffer.textBefore nl = .ofBytes (buffer.content.take nl) := by
  have within : nl < buffer.data.length := Nat.lt_of_lt_of_le inside buffer.len_le
  have shape : buffer.data.set nl 0 = buffer.content.take nl ++ 0 :: buffer.data.drop (nl + 1) := by
    rw [List.set_eq_take_append_cons_drop, if_pos within, content, List.take_take,
      Nat.min_eq_left (Nat.le_of_lt inside)]
  apply CStr.ext
  rw [textBefore, shape]
  simp only [CStr.ofBytes]
  rw [List.takeWhile_append]
  split
  · rename_i whole
    simp only [ne_eq, not_true_eq_false, decide_false, Bool.false_eq_true, not_false_eq_true,
      List.takeWhile_cons_of_neg, List.append_nil]
    exact (List.IsPrefix.eq_of_length (List.takeWhile_prefix _) whole).symm
  · rfl

/-- The byte at the offset is put back, the bytes behind it are moved to the front and the
terminator follows them. -/
def consume (buffer : DynamicBuffer) (nl : Nat) (inside : nl < buffer.len) : DynamicBuffer :=
  let saved := buffer.data.get ⟨nl, Nat.lt_of_lt_of_le inside buffer.len_le⟩
  let restored := (buffer.data.set nl 0).set nl saved
  let rest := buffer.len - (nl + 1)
  terminate (overwrite restored 0 ((restored.drop (nl + 1)).take rest)) rest (by
    have within := buffer.len_le
    simp only [overwrite, List.length_append, List.length_take, List.length_drop, restored, rest,
      List.length_set]
    omega)

/-- The content behind the offset stays. -/
theorem content_consume {buffer : DynamicBuffer} {nl : Nat} (inside : nl < buffer.len) :
    (buffer.consume nl inside).content = buffer.content.drop (nl + 1) := by
  have within := buffer.len_le
  simp only [consume, content_terminate, overwrite]
  rw [List.set_set, List.get_eq_getElem, List.set_getElem_self, List.take_zero, List.nil_append,
    List.take_append_of_le_length (by simp; omega), List.take_take, Nat.min_self, content,
    List.drop_take]

/-- What is left is shorter. -/
theorem len_consume {buffer : DynamicBuffer} {nl : Nat} (inside : nl < buffer.len) :
    (buffer.consume nl inside).len < buffer.len := by
  simp only [consume, terminate]
  omega

end DynamicBuffer

end StreamPipeline
