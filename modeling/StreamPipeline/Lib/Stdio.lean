import StreamPipeline.Lib.Bytes

/-!
# Buffered output

An output stream collects bytes in a buffer of fixed size and writes the buffer to its file when
it is full, before a seek and at the close. Every write of the buffer can fail after some of its
bytes; the buffer is then given up. An operation that needs a number of writes succeeds exactly
when all of them do.
-/

namespace StreamPipeline.Stdio

/-- The buffer and the fate of its writes. -/
structure Device where
  /-- The size of the buffer. -/
  capacity : Nat
  /-- The buffer holds something. -/
  positive : 0 < capacity
  /-- The fate of each write: none succeeds, and a number fails after so many bytes. -/
  failing : Nat → Option Nat

/-- An output stream. -/
structure Buffered where
  /-- The content of the file. -/
  file : Bytes
  /-- The bytes in the buffer. -/
  pending : Bytes
  /-- How often the buffer was written. -/
  writes : Nat
  deriving DecidableEq

/-- A stream on an opened file. -/
def Buffered.start (file : Bytes) : Buffered := ⟨file, [], 0⟩

/-- The file as it is once the buffer is written. -/
def Buffered.text (stream : Buffered) : Bytes := stream.file ++ stream.pending

/-- An operation after one that succeeded. -/
def andThen (result : Buffered × Bool) (next : Buffered → Buffered × Bool) : Buffered × Bool :=
  if result.2 then next result.1 else result

/-- Both operations succeeded when the two in a row did. -/
theorem andThen_succeeded {result : Buffered × Bool} {next : Buffered → Buffered × Bool}
    (succeeded : (andThen result next).2 = true) :
    result.2 = true ∧ andThen result next = next result.1 := by
  unfold andThen at succeeded ⊢
  split at succeeded
  · rename_i first
    exact ⟨first, if_pos first⟩
  · contradiction

namespace Device

variable (device : Device)

/-- The buffer is written. A failed write leaves at least one byte out. -/
def flush (stream : Buffered) : Buffered × Bool :=
  if stream.pending = [] then (stream, true)
  else
    match device.failing stream.writes with
    | none => (⟨stream.text, [], stream.writes + 1⟩, true)
    | some count =>
      let kept := stream.pending.take (min count (stream.pending.length - 1))
      (⟨stream.file ++ kept, [], stream.writes + 1⟩, false)

/-- One byte is put into the buffer, which is written first when it is full. -/
def putc (byte : UInt8) (stream : Buffered) : Buffered × Bool :=
  if stream.pending.length = device.capacity then
    andThen (device.flush stream) fun written => ({ written with pending := [byte] }, true)
  else ({ stream with pending := stream.pending ++ [byte] }, true)

/-- `fprintf` of a text. -/
def print : Bytes → Buffered → Buffered × Bool
  | [], stream => (stream, true)
  | byte :: text, stream => andThen (device.putc byte stream) (print text)

/-- `fseek` to the end, which writes the buffer first. -/
def seek (stream : Buffered) : Buffered × Bool := device.flush stream

/-- `fclose`, which writes the buffer, with its report. -/
def close (stream : Buffered) : Bytes × Bool :=
  ((device.flush stream).1.file, (device.flush stream).2)

/-- One record at the end of the file. -/
def appendRecord (record : Bytes) (stream : Buffered) : Buffered × Bool :=
  andThen (device.seek stream) (device.print record)

/-- Records one after the other; the first that fails is the last. -/
def appendRecords : List Bytes → Buffered → Buffered × Bool
  | [], stream => (stream, true)
  | record :: records, stream =>
    andThen (device.appendRecord record stream) (appendRecords records)

/-- The writes from a number up to another succeed. -/
def Clear (start stop : Nat) : Prop :=
  ∀ number, start ≤ number → number < stop → device.failing number = none

/-- The writes a record needs behind another one. -/
def writesFor (record : Bytes) : Nat := (record.length - 1) / device.capacity + 1

/-- The writes of several records, the last one at the close. -/
def neededWrites (records : List Bytes) : Nat := (records.map device.writesFor).sum

/-- The write left to the close succeeds, or an earlier one fails. -/
def CloseHarmless (records : List Bytes) : Prop :=
  records = [] ∨ device.failing (device.neededWrites records - 1) = none ∨
    ∃ earlier < device.neededWrites records - 1, device.failing earlier ≠ none

/-- No write is clear. -/
theorem clear_self (start : Nat) : device.Clear start start := by
  intro number least most
  omega

/-- Two runs of writes are clear together. -/
theorem clear_append {start middle stop : Nat} (first : start ≤ middle) (second : middle ≤ stop) :
    device.Clear start stop ↔ device.Clear start middle ∧ device.Clear middle stop := by
  constructor
  · intro clear
    exact ⟨fun number least most => clear number least (by omega),
      fun number least most => clear number (by omega) most⟩
  · rintro ⟨early, late⟩ number least most
    by_cases before : number < middle
    · exact early number least before
    · exact late number (by omega) most

/-- One write is clear when it succeeds. -/
theorem clear_succ (start : Nat) :
    device.Clear start (start + 1) ↔ device.failing start = none := by
  constructor
  · intro clear
    exact clear start (Nat.le_refl _) (by omega)
  · intro succeeds number least most
    obtain rfl : number = start := by omega
    exact succeeds

/-- What an operation does that adds bytes and needs a number of writes. -/
structure Performs (before : Buffered) (result : Buffered × Bool) (bytes : Bytes)
    (count : Nat) : Prop where
  succeeds : result.2 = true ↔ device.Clear before.writes (before.writes + count)
  text : result.2 = true → result.1.text = before.text ++ bytes
  writes : result.2 = true → result.1.writes = before.writes + count

variable {device}

/-- Doing nothing needs no write. -/
theorem performs_nothing (stream : Buffered) : device.Performs stream (stream, true) [] 0 where
  succeeds := ⟨fun _ => device.clear_self _, fun _ => rfl⟩
  text _ := (List.append_nil _).symm
  writes _ := rfl

/-- Two operations in a row add the bytes of both and need the writes of both. -/
theorem Performs.andThen {before : Buffered} {result : Buffered × Bool} {first second : Bytes}
    {early late : Nat} {next : Buffered → Buffered × Bool}
    (opening : device.Performs before result first early)
    (closing : result.2 = true → device.Performs result.1 (next result.1) second late) :
    device.Performs before (Stdio.andThen result next) (first ++ second) (early + late) := by
  have parts := device.clear_append (Nat.le_add_right before.writes early)
    (Nat.le_add_right (before.writes + early) late)
  cases done : result.2 with
  | false =>
    have failed : Stdio.andThen result next = result := by simp [Stdio.andThen, done]
    have blocked : ¬device.Clear before.writes (before.writes + early) := fun clear =>
      absurd (opening.succeeds.mpr clear) (by simp [done])
    refine ⟨?_, ?_, ?_⟩
    · rw [failed, done, ← Nat.add_assoc, parts]
      exact ⟨nofun, fun clear => absurd clear.1 blocked⟩
    · intro succeeded
      rw [failed, done] at succeeded
      contradiction
    · intro succeeded
      rw [failed, done] at succeeded
      contradiction
  | true =>
    have rest := closing done
    have writes := opening.writes done
    have clear := opening.succeeds.mp done
    have both : Stdio.andThen result next = next result.1 := by simp [Stdio.andThen, done]
    refine ⟨?_, ?_, ?_⟩
    · rw [both, rest.succeeds, writes, ← Nat.add_assoc, parts]
      exact ⟨fun later => ⟨clear, later⟩, And.right⟩
    · intro succeeded
      rw [both] at succeeded ⊢
      rw [rest.text succeeded, opening.text done, List.append_assoc]
    · intro succeeded
      rw [both] at succeeded ⊢
      rw [rest.writes succeeded, writes, Nat.add_assoc]

/-- Writing a buffer that is not empty needs one write. -/
theorem performs_flush {stream : Buffered} (waiting : stream.pending ≠ []) :
    device.Performs stream (device.flush stream) [] 1 := by
  unfold flush
  rw [if_neg waiting]
  refine ⟨?_, ?_, ?_⟩
  · rw [device.clear_succ]
    cases device.failing stream.writes <;> simp
  · cases device.failing stream.writes with
    | none => simp [Buffered.text]
    | some count => simp
  · cases device.failing stream.writes with
    | none => simp
    | some count => simp

/-- A written buffer is empty. -/
theorem pending_flush (stream : Buffered) : (device.flush stream).1.pending = [] := by
  unfold flush
  split
  · assumption
  · split <;> rfl

/-- A byte needs a write when the buffer is full. -/
theorem performs_putc (byte : UInt8) {stream : Buffered}
    (room : stream.pending.length ≤ device.capacity) :
    device.Performs stream (device.putc byte stream) [byte]
      (stream.pending.length / device.capacity) := by
  have positive := device.positive
  unfold putc
  split
  · rename_i full
    have waiting : stream.pending ≠ [] := by
      intro empty
      rw [empty, List.length_nil] at full
      omega
    have empty : (device.flush stream).1.pending = [] := pending_flush stream
    rw [full, Nat.div_self positive]
    show device.Performs stream _ ([] ++ [byte]) (1 + 0)
    apply (performs_flush waiting).andThen
    intro _
    exact ⟨⟨fun _ => device.clear_self _, fun _ => rfl⟩, fun _ => by simp [Buffered.text, empty],
      fun _ => rfl⟩
  · rename_i spare
    rw [Nat.div_eq_of_lt (by omega)]
    exact ⟨⟨fun _ => device.clear_self _, fun _ => rfl⟩, fun _ => by simp [Buffered.text],
      fun _ => rfl⟩

/-- A byte that was put is in the buffer. -/
theorem pending_putc {byte : UInt8} {stream : Buffered}
    (succeeded : (device.putc byte stream).2 = true) :
    (device.putc byte stream).1.pending.length =
      if stream.pending.length = device.capacity then 1 else stream.pending.length + 1 := by
  unfold putc at succeeded ⊢
  split
  · rename_i full
    rw [if_pos full, andThen] at succeeded
    unfold andThen
    split
    · rfl
    · rename_i failed
      rw [if_neg failed] at succeeded
      contradiction
  · simp

/-- A text needs a write for every time it fills the buffer. -/
theorem performs_print (text : Bytes) {stream : Buffered}
    (room : stream.pending.length ≤ device.capacity) :
    device.Performs stream (device.print text stream) text
      ((stream.pending.length + text.length - 1) / device.capacity) := by
  have positive := device.positive
  induction text generalizing stream with
  | nil =>
    rw [List.length_nil, Nat.add_zero, Nat.div_eq_of_lt (by omega)]
    exact performs_nothing stream
  | cons byte text ih =>
    have count : stream.pending.length / device.capacity +
        ((if stream.pending.length = device.capacity then 1 else stream.pending.length + 1) +
          text.length - 1) / device.capacity =
        (stream.pending.length + (byte :: text).length - 1) / device.capacity := by
      rw [List.length_cons]
      split
      · rename_i full
        rw [full, Nat.div_self positive, Nat.add_sub_cancel_left,
          show device.capacity + (text.length + 1) - 1 = text.length + device.capacity by omega,
          Nat.add_div_right _ positive, Nat.add_comm]
      · rename_i spare
        rw [Nat.div_eq_of_lt (show stream.pending.length < device.capacity by omega), Nat.zero_add,
          Nat.add_right_comm, Nat.add_assoc]
    rw [← count]
    show device.Performs stream _ ([byte] ++ text) _
    apply (performs_putc byte room).andThen
    intro succeeded
    have length := pending_putc succeeded
    have fits : (device.putc byte stream).1.pending.length ≤ device.capacity := by
      rw [length]
      split <;> omega
    have later := ih fits
    rwa [length] at later

/-- A printed text leaves its end in the buffer. -/
theorem pending_print {text : Bytes} {stream : Buffered}
    (put : text ≠ [] ∨ stream.pending ≠ [])
    (succeeded : (device.print text stream).2 = true) :
    (device.print text stream).1.pending ≠ [] := by
  induction text generalizing stream with
  | nil => exact put.resolve_left (by simp)
  | cons byte text ih =>
    obtain ⟨first, rest⟩ := andThen_succeeded succeeded
    have length := pending_putc first
    have waiting : (device.putc byte stream).1.pending ≠ [] := by
      intro empty
      rw [empty, List.length_nil] at length
      split at length <;> omega
    rw [print, rest] at succeeded ⊢
    exact ih (.inr waiting) succeeded

/-! ## Records -/

/-- A record behind another one needs a write for the buffer it finds. -/
theorem performs_nextRecord (record : Bytes) {stream : Buffered} (waiting : stream.pending ≠ []) :
    device.Performs stream (device.appendRecord record stream) record (device.writesFor record) := by
  have empty : (device.flush stream).1.pending = [] := pending_flush stream
  rw [writesFor, Nat.add_comm]
  show device.Performs stream _ ([] ++ record) _
  apply (performs_flush waiting).andThen
  intro _
  have room : (device.flush stream).1.pending.length ≤ device.capacity := by simp [empty]
  have printed := performs_print record room
  rwa [empty, List.length_nil, Nat.zero_add] at printed

/-- The first record finds no buffer to write. -/
theorem performs_firstRecord (record : Bytes) {stream : Buffered} (idle : stream.pending = []) :
    device.Performs stream (device.appendRecord record stream) record
      ((record.length - 1) / device.capacity) := by
  have sought : device.appendRecord record stream = device.print record stream := by
    simp [appendRecord, seek, flush, idle, andThen]
  rw [sought]
  have room : stream.pending.length ≤ device.capacity := by simp [idle]
  have printed := performs_print record room
  rwa [idle, List.length_nil, Nat.zero_add] at printed

/-- A record leaves its end in the buffer. -/
theorem pending_appendRecord {record : Bytes} {stream : Buffered} (nonempty : record ≠ [])
    (succeeded : (device.appendRecord record stream).2 = true) :
    (device.appendRecord record stream).1.pending ≠ [] := by
  obtain ⟨_, rest⟩ := andThen_succeeded succeeded
  rw [appendRecord, rest] at succeeded ⊢
  exact pending_print (.inl nonempty) succeeded

/-- A single record. -/
theorem appendRecords_singleton (record : Bytes) (stream : Buffered) :
    device.appendRecords [record] stream = device.appendRecord record stream := by
  unfold appendRecords andThen
  split
  · rename_i done
    exact Prod.ext rfl done.symm
  · rfl

/-- Further records. -/
theorem performs_nextRecords {records : List Bytes} (nonempty : ∀ record ∈ records, record ≠ [])
    {stream : Buffered} (waiting : stream.pending ≠ []) :
    device.Performs stream (device.appendRecords records stream) records.flatten
        (device.neededWrites records) ∧
      ((device.appendRecords records stream).2 = true →
        (device.appendRecords records stream).1.pending ≠ []) := by
  induction records generalizing stream with
  | nil => exact ⟨performs_nothing stream, fun _ => waiting⟩
  | cons record records ih =>
    have first := nonempty record List.mem_cons_self
    have later : ∀ record ∈ records, record ≠ [] :=
      fun other member => nonempty other (List.mem_cons_of_mem record member)
    refine ⟨?_, fun succeeded => ?_⟩
    · show device.Performs stream _ (record ++ records.flatten)
        (device.writesFor record + device.neededWrites records)
      apply (performs_nextRecord record waiting).andThen
      intro succeeded
      exact (ih later (pending_appendRecord first succeeded)).1
    · obtain ⟨done, rest⟩ := andThen_succeeded succeeded
      rw [appendRecords, rest] at succeeded ⊢
      exact (ih later (pending_appendRecord first done)).2 succeeded

/-- All records, from a stream that was just opened: the last of their writes is left to the
close. -/
theorem performs_records {records : List Bytes} (nonempty : ∀ record ∈ records, record ≠ [])
    (some : records ≠ []) (file : Bytes) :
    device.Performs (.start file) (device.appendRecords records (.start file)) records.flatten
        (device.neededWrites records - 1) ∧
      ((device.appendRecords records (.start file)).2 = true →
        (device.appendRecords records (.start file)).1.pending ≠ []) := by
  obtain ⟨record, records, rfl⟩ := List.exists_cons_of_ne_nil some
  have first := nonempty record List.mem_cons_self
  have later : ∀ record ∈ records, record ≠ [] :=
    fun other member => nonempty other (List.mem_cons_of_mem record member)
  have count : (record.length - 1) / device.capacity + device.neededWrites records =
      device.neededWrites (record :: records) - 1 := by
    have sum : device.neededWrites (record :: records) =
        (record.length - 1) / device.capacity + 1 + device.neededWrites records := rfl
    rw [sum, Nat.add_right_comm, Nat.add_sub_cancel]
  refine ⟨?_, fun succeeded => ?_⟩
  · rw [← count]
    show device.Performs _ _ (record ++ records.flatten) _
    apply (performs_firstRecord record rfl).andThen
    intro succeeded
    exact (performs_nextRecords later (pending_appendRecord first succeeded)).1
  · obtain ⟨done, rest⟩ := andThen_succeeded succeeded
    rw [appendRecords, rest] at succeeded ⊢
    exact (performs_nextRecords later (pending_appendRecord first done)).2 succeeded

/-- A closed file is the text exactly when its last write succeeds. -/
theorem close_eq_text_iff {stream : Buffered} (waiting : stream.pending ≠ []) :
    (device.close stream).1 = stream.text ↔ device.failing stream.writes = none := by
  unfold close flush
  rw [if_neg waiting]
  cases device.failing stream.writes with
  | none => simp
  | some count =>
    have length : 0 < stream.pending.length := List.length_pos_of_ne_nil waiting
    simp only [Buffered.text, List.append_cancel_left_eq, reduceCtorEq, iff_false]
    intro same
    have shorter := congrArg List.length same
    rw [List.length_take] at shorter
    omega

/-- Records whose appends all succeed are in the closed file exactly when the close does no
harm. -/
theorem closed_records_iff {records : List Bytes} (nonempty : ∀ record ∈ records, record ≠ [])
    (file : Bytes) :
    ((device.appendRecords records (.start file)).2 = true →
        (device.close (device.appendRecords records (.start file)).1).1 =
          file ++ records.flatten) ↔ device.CloseHarmless records := by
  by_cases some : records = []
  · subst some
    simp [appendRecords, close, flush, Buffered.start, CloseHarmless]
  have both : device.Performs _ (device.appendRecords records _) _ _ ∧ _ :=
    performs_records nonempty some file
  generalize device.appendRecords records (.start file) = result at both
  obtain ⟨performs, waiting⟩ := both
  have clear : result.2 = true ↔ device.Clear 0 (device.neededWrites records - 1) := by
    rw [performs.succeeds]
    show device.Clear 0 (0 + _) ↔ _
    rw [Nat.zero_add]
  have earlier : (¬result.2 = true) ↔
      ∃ earlier < device.neededWrites records - 1, device.failing earlier ≠ none := by
    rw [clear, Clear]
    simp
  rw [CloseHarmless, or_iff_right some, ← earlier]
  by_cases succeeded : result.2 = true
  · have text : result.1.text = file ++ records.flatten := by
      rw [performs.text succeeded]
      simp [Buffered.text, Buffered.start]
    have writes : result.1.writes = device.neededWrites records - 1 := by
      rw [performs.writes succeeded]
      exact Nat.zero_add _
    have closed : (device.close result.1).1 = _ ↔ _ := close_eq_text_iff (waiting succeeded)
    rw [text, writes] at closed
    simp [succeeded, closed]
  · simp [succeeded]

end Device

end StreamPipeline.Stdio
