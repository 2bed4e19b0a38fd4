import StreamPipeline.Store.Decompress
import StreamPipeline.Store.Ownership

/-!
# What a lookup gives back

A line of the file is parsed in place: its strings point into the buffer of `getline`, or into the
block the value was decompressed into, until the index has copied them. Every block of a lookup is
freed once, whatever allocation fails, and the answer is the one that some failing calls explain.
-/

namespace StreamPipeline.Store.Memory

open Blocks

/-! ## The line -/

/-- A byte of a block becomes a terminator. -/
theorem leaves_terminate (block : Nat) {bytes : Bytes} {place : Nat}
    (inside : place < bytes.length) :
    Leaves (terminate (some ⟨block, 0⟩) place) {(block, .text bytes)}
      {(block, .text (bytes.set place 0))} := by
  have member : (block, Block.text bytes) ∈ ({(block, .text bytes)} : Cells) := by simp
  have chars : Returns (chars (some ⟨block, 0⟩)) {(block, .text bytes)} bytes :=
    (returns_load member).bind (.pure ⟨rfl, rfl⟩)
  apply chars.bind
  show Leaves (if place < bytes.length then _ else _) _ _
  rw [if_pos inside]
  exact leaves_store _ _ _

/-- Bytes before a terminator are a string. -/
theorem exists_terminated (bytes : Bytes) :
    ∃ rest, bytes ++ [0] = (CStr.ofBytes bytes).bytes ++ 0 :: rest := by
  obtain ⟨left, rest, split, clean⟩ := List.eq_append_cons_of_mem
    (show (0 : UInt8) ∈ bytes ++ [0] by simp)
  refine ⟨rest, ?_⟩
  have same := ofBytes_terminated left rest
  rw [← split, ofBytes_terminated bytes []] at same
  rw [same, CStr.bytes_ofBytes clean, split]

/-- The byte behind a front is replaced. -/
theorem set_behind (left : Bytes) (byte other : UInt8) (right : Bytes) :
    (left ++ byte :: right).set left.length other = left ++ other :: right := by
  rw [List.set_append_right _ _ (Nat.le_refl _), Nat.sub_self]
  rfl

/-- A line is cut at its end. -/
theorem meets_cutLine (block : Nat) (line : Bytes) :
    Meets (cutLine (some ⟨block, 0⟩)) {(block, .text (line ++ [0]))} fun _ left =>
      ∃ rest, left = {(block, .text ((chomp line).bytes ++ 0 :: rest))} := by
  obtain ⟨rest, split⟩ := exists_terminated line
  have points : Points {(block, .text (line ++ [0]))} (some ⟨block, 0⟩) (CStr.ofBytes line) :=
    ⟨block, 0, line ++ [0], rfl, by simp, by simp, ofBytes_terminated line []⟩
  have front : ((CStr.ofBytes line).bytes.takeWhile fun byte => byte ≠ cr ∧ byte ≠ lf) =
      (chomp line).bytes := by
    show (line.takeWhile _).takeWhile _ = (line.takeWhile _).takeWhile _
    rw [List.takeWhile_takeWhile, List.takeWhile_takeWhile]
    congr 1
    funext byte
    simp only [decide_not, and_comm]
  apply (returns_readStr points).bind
  rw [front, split]
  have inside : (chomp line).bytes.length < ((CStr.ofBytes line).bytes ++ 0 :: rest).length := by
    have shorter := (List.takeWhile_prefix (l := (CStr.ofBytes line).bytes)
      fun byte => byte ≠ cr ∧ byte ≠ lf).length_le
    rw [front] at shorter
    rw [List.length_append, List.length_cons]
    omega
  apply (leaves_terminate block inside).weaken
  rintro ⟨⟩ left rfl
  obtain ⟨back, whole⟩ := List.takeWhile_prefix (l := (CStr.ofBytes line).bytes)
    fun byte => byte ≠ cr ∧ byte ≠ lf
  rw [front] at whole
  rw [← whole]
  cases back with
  | nil =>
    refine ⟨rest, ?_⟩
    rw [List.append_nil, set_behind]
  | cons byte back =>
    refine ⟨back ++ 0 :: rest, ?_⟩
    rw [List.append_assoc, List.cons_append, set_behind]

/-! ## The value -/

variable (fails : Nat → Bool) (junk : UInt8) (miniz : Miniz)

/-- Bytes that `uncompress` wrote are the plain text, and fit. -/
theorem plain_of_uncompress {miniz : Miniz} {capacity : Nat} {stream plain : Bytes}
    (found : miniz.uncompress capacity stream = .ok plain) :
    miniz.plain stream = some plain ∧ plain.length ≤ capacity := by
  unfold Miniz.uncompress at found
  split at found
  · contradiction
  · rename_i text same
    split at found
    · rename_i fits
      rw [← Status.ok.inj found]
      exact ⟨same, fits⟩
    · contradiction

/-- A stream `uncompress` rejects has no plain text. -/
theorem plain_of_failed {miniz : Miniz} {capacity : Nat} {stream : Bytes}
    (found : miniz.uncompress capacity stream = .failed) : miniz.plain stream = none := by
  unfold Miniz.uncompress at found
  split at found
  · assumption
  · split at found <;> contradiction

/-- A plain text that does not fit is longer than the buffer. -/
theorem longer_of_bufError {miniz : Miniz} {capacity : Nat} {stream : Bytes}
    (found : miniz.uncompress capacity stream = .bufError) :
    capacity < ((miniz.plain stream).getD []).length := by
  unfold Miniz.uncompress at found
  split at found
  · contradiction
  · rename_i text same
    split at found
    · contradiction
    · rename_i long
      rw [same]
      exact Nat.lt_of_not_le long

/-- Bytes stored at the start of a block that has room for them. -/
theorem leaves_overwrite (block : Nat) {old bytes : Bytes} (fits : bytes.length ≤ old.length) :
    Leaves (overwrite (some ⟨block, 0⟩) bytes) {(block, .text old)}
      {(block, .text (bytes ++ old.drop bytes.length))} := by
  have member : (block, Block.text old) ∈ ({(block, .text old)} : Cells) := by simp
  have chars : Returns (chars (some ⟨block, 0⟩)) {(block, .text old)} old :=
    (returns_load member).bind (.pure ⟨rfl, rfl⟩)
  apply chars.bind
  show Leaves (if bytes.length ≤ old.length then _ else _) _ _
  rw [if_pos fits]
  exact leaves_store _ _ _

/-- What the decompression loop leaves beside `comp`: the plain text at the start of a buffer that
was not doubled too often, or a buffer without one. -/
def Inflates (stream : Bytes) (capacity : Nat) (result : Option Ptr × Option Nat) (left : Cells) :
    Prop :=
  ∃ block bytes, left = {(block, Block.text bytes)} ∧
    ((result = (some ⟨block, 0⟩, none) ∧
      (miniz.plain stream = none ∨ ∃ call, fails call = true)) ∨
    ∃ plain tail doublings, result = (some ⟨block, 0⟩, some plain.length) ∧
      miniz.plain stream = some plain ∧ bytes = plain ++ tail ∧
      bytes.length = capacity * 2 ^ doublings ∧ (doublings = 0 ∨ bytes.length < 2 * plain.length))

/-- The decompression loop keeps its two buffers, or frees them because a call fails. -/
theorem meets_inflate (comp : Nat) (kept : Block) (stream : Bytes) {uncomp : Nat} {bytes : Bytes}
    {capacity : Nat} (positive : 0 < capacity) (size : bytes.length = capacity) :
    Meets (inflate fails junk miniz (some ⟨comp, 0⟩) stream (some ⟨uncomp, 0⟩) capacity positive)
      ({(comp, kept)} + {(uncomp, .text bytes)}) fun result left =>
        (result = none ∧ left = 0 ∧ ∃ call, fails call = true) ∨
          ∃ inflated own, result = some inflated ∧ left = {(comp, kept)} + own ∧
            Inflates fails miniz stream capacity inflated own := by
  induction ahead : ((miniz.plain stream).getD []).length - capacity
    using Nat.strong_induction_on generalizing capacity uncomp bytes with
  | h ahead ih =>
  rw [inflate]
  apply (meets_alloc fails Block.handle).bind (zero_add _).symm
  rintro result left (⟨rfl, rfl, failed⟩ | ⟨state, rfl, rfl⟩)
  · rw [zero_add]
    exact .pure (.inr ⟨_, _, rfl, rfl, uncomp, bytes, rfl, .inl ⟨rfl, .inr failed⟩⟩)
  apply (leaves_free state _).bind rfl
  rw [zero_add]
  split
  · rename_i plain found
    obtain ⟨read, fits⟩ := plain_of_uncompress found
    rw [← size] at fits
    apply (leaves_overwrite uncomp fits).bind (add_comm _ _)
    rw [add_comm]
    refine .pure (.inr ⟨_, _, rfl, rfl, uncomp, _, rfl,
      .inr ⟨plain, _, 0, rfl, read, rfl, ?_, .inl rfl⟩⟩)
    rw [List.length_append, List.length_drop]
    omega
  · rename_i found
    exact .pure (.inr ⟨_, _, rfl, rfl, uncomp, bytes, rfl,
      .inl ⟨rfl, .inl (plain_of_failed found)⟩⟩)
  · rename_i found
    apply (meets_realloc fails _ (leaves_free uncomp _)).bind (add_comm _ _)
    rintro result left (⟨rfl, rfl, failed⟩ | ⟨fresh, rfl, rfl⟩)
    · apply (leaves_free uncomp _).bind rfl
      apply (leaves_free comp _).bind (add_comm _ _)
      exact .pure (.inl ⟨rfl, zero_add _, failed⟩)
    · have longer := longer_of_bufError found
      have shrinks : ((miniz.plain stream).getD []).length - capacity * 2 <
          ((miniz.plain stream).getD []).length - capacity := by omega
      rw [add_comm]
      apply (ih _ (ahead ▸ shrinks) _ List.length_replicate rfl).weaken
      rintro result left (gone | ⟨inflated, own, rfl, rfl, block, bytes, rfl, ended | ⟨plain, tail,
        doublings, same, read, whole, length, least⟩⟩)
      · exact .inl gone
      · exact .inr ⟨inflated, _, rfl, rfl, block, bytes, rfl, .inl ended⟩
      · refine .inr ⟨inflated, _, rfl, rfl, block, bytes, rfl,
          .inr ⟨plain, tail, doublings + 1, same, read, whole, ?_, .inr ?_⟩⟩
        · rw [length, Nat.pow_succ, Nat.mul_assoc, Nat.mul_comm 2]
        · rcases least with rfl | least
          · rw [read, Option.getD_some] at longer
            rw [length]
            omega
          · exact least

/-- The plain text of a stream fills none of the buffers it is decompressed into. -/
def Roomy (text : Bytes) : Prop :=
  ∀ comp plain doublings, Base64.decode 58 text (text.length + 1) = some comp →
    miniz.plain comp = some plain → plain.length ≠ (comp.length * 4 + 1024) * 2 ^ doublings

/-- No row of a text fills the buffers of its value. -/
def RoomyRows (text : List Bytes) : Prop :=
  ∀ line ∈ text, ∀ marked ∈ markedText (chomp line), Roomy miniz marked

/-- A decoded text fits the place it is decoded into. -/
theorem length_decode_le {before : UInt8} {text stream : Bytes} {outMax : Nat}
    (decoded : Base64.decode before text outMax = some stream) : stream.length ≤ outMax := by
  unfold Base64.decode at decoded
  split at decoded
  · contradiction
  · split at decoded
    · contradiction
    · rename_i room
      obtain ⟨octets, -, rfl⟩ := Option.map_eq_some_iff.mp decoded
      rw [List.length_take]
      omega

/-- A value is decoded into a block of its own, or freed. -/
theorem meets_decodeStream {text : Bytes} (roomy : Roomy miniz text) :
    Meets (decodeStream fails junk miniz text) 0 fun result left =>
      (result = none ∧ left = 0 ∧
        (Store.decodeStream miniz .none text = none ∨ ∃ call, fails call = true)) ∨
        ∃ block plain rest, result = some ⟨block, 0⟩ ∧
          left = {(block, .text (plain ++ 0 :: rest))} ∧
          Store.decodeStream miniz .none text = some (.ofBytes plain) := by
  rw [decodeStream_none]
  apply (meets_alloc fails _).andThen
  rintro result left (⟨rfl, rfl, failed⟩ | ⟨comp, rfl, rfl⟩)
  · exact .pure (.inl ⟨rfl, rfl, .inr failed⟩)
  show Meets (inflateDecoded _ _ _ _ (Base64.decode 58 text (text.length + 1))) _ _
  cases decoded : Base64.decode 58 text (text.length + 1) with
  | none =>
    apply (leaves_free comp _).bind (add_zero _).symm
    exact .pure (.inl ⟨rfl, add_zero 0, .inl rfl⟩)
  | some stream =>
    have fits : stream.length ≤ (List.replicate (text.length + 1) junk).length := by
      rw [List.length_replicate]
      exact length_decode_le decoded
    apply (leaves_overwrite comp fits).bind (add_zero _).symm
    rw [add_zero]
    apply (meets_alloc fails _).bind (zero_add _).symm
    rintro result left (⟨rfl, rfl, failed⟩ | ⟨uncomp, rfl, rfl⟩)
    · apply (leaves_free comp _).bind (add_comm _ _)
      exact .pure (.inl ⟨rfl, add_zero 0, .inr failed⟩)
    rw [add_comm ({(uncomp, _)} : Cells)]
    apply (meets_inflate fails junk miniz comp _ stream _ List.length_replicate).andThen
    rintro result left (⟨rfl, rfl, failed⟩ | ⟨inflated, own, rfl, rfl, block, bytes, rfl, ended⟩)
    · exact .pure (.inl ⟨rfl, rfl, .inr failed⟩)
    apply (leaves_free comp _).bind rfl
    rw [zero_add]
    rcases ended with ⟨rfl, unread⟩ | ⟨plain, tail, doublings, rfl, read, rfl, length, -⟩
    · apply (leaves_free block _).bind (add_zero _).symm
      exact .pure (.inl ⟨rfl, add_zero 0, unread.imp_left fun unread => by simp [unread]⟩)
    · have room := roomy stream plain doublings decoded read
      cases tail with
      | nil =>
        rw [List.append_nil] at length
        contradiction
      | cons byte tail =>
        have inside : plain.length < (plain ++ byte :: tail).length := by simp
        apply (leaves_terminate block inside).bind (add_zero _).symm
        rw [set_behind, add_zero]
        exact .pure (.inr ⟨block, plain, tail, rfl, rfl, by simp [read]⟩)

/-! ## The row of a line -/

/-- What `parse_db_row` leaves of a line: a row whose strings are in the line or in a block that
`free_db_row` frees, or the line alone when there is no row or a call fails. -/
def Parsed (text : CStr) (line : Nat) (result : Option RowFields) (left : Cells) : Prop :=
  ∃ (bytes : Bytes) (faults : ParseFaults), ((∀ call, fails call = false) → faults = .none) ∧
    match result with
    | none => left = {(line, .text bytes)} ∧ Store.parseDbRow miniz faults text = none
    | some parsed => ∃ own row, left = {(line, .text bytes)} + own ∧
      Leaves (freeDbRow parsed) own 0 ∧ Points left parsed.key row.key ∧
      Points left parsed.value row.value ∧ parsed.expireAt = row.expireAt ∧
      Store.parseDbRow miniz faults text = some row

/-- A line that has no fields has no row. -/
theorem parsed_unsplit {text : CStr} (unsplit : splitRow text.bytes = none) (line : Nat)
    (bytes : Bytes) : Parsed fails miniz text line none {(line, .text bytes)} :=
  ⟨bytes, .none, fun _ => rfl, rfl, by rw [Store.parseDbRow, unsplit]⟩

/-- A line whose first two fields have terminators. -/
def cutFields (key value behind : Bytes) : Bytes := (key ++ 0 :: value) ++ 0 :: behind

/-- The first tab of a line becomes a terminator. -/
theorem leaves_firstTab (line : Nat) (key value behind : Bytes) :
    Leaves (terminate (some ⟨line, 0⟩) key.length)
      {(line, .text (key ++ tab :: (value ++ tab :: behind)))}
      {(line, .text ((key ++ 0 :: value) ++ tab :: behind))} := by
  have inside : key.length < (key ++ tab :: (value ++ tab :: behind)).length := by simp
  have cut : (key ++ tab :: (value ++ tab :: behind)).set key.length 0 =
      (key ++ 0 :: value) ++ tab :: behind := by
    rw [set_behind]
    simp
  rw [← cut]
  exact leaves_terminate line inside

/-- The second tab of a line becomes a terminator. -/
theorem leaves_secondTab (line : Nat) (key value behind : Bytes) :
    Leaves (terminate (some ⟨line, 0⟩) (key.length + 1 + value.length))
      {(line, .text ((key ++ 0 :: value) ++ tab :: behind))}
      {(line, .text (cutFields key value behind))} := by
  have place : key.length + 1 + value.length = (key ++ 0 :: value).length := by
    rw [List.length_append, List.length_cons]
    omega
  have inside : (key ++ 0 :: value).length <
      ((key ++ 0 :: value) ++ tab :: behind).length := by
    simp
  rw [place, cutFields, ← set_behind (key ++ 0 :: value) tab 0 behind]
  exact leaves_terminate line inside

/-- The key is at the start of a line. -/
theorem points_keyField (line : Nat) (key value behind : Bytes) :
    Points {(line, .text (cutFields key value behind))} (some ⟨line, 0⟩) (.ofBytes key) := by
  refine ⟨line, 0, _, rfl, Multiset.mem_singleton_self _, by simp [cutFields], ?_⟩
  rw [List.drop_zero, cutFields, List.append_assoc, List.cons_append, ofBytes_terminated]

/-- The value is behind the key. -/
theorem points_valueField (line : Nat) (key value behind : Bytes) :
    Points {(line, .text (cutFields key value behind))} (some ⟨line, 0 + (key.length + 1)⟩)
      (.ofBytes value) := by
  have rest : (cutFields key value behind).drop (0 + (key.length + 1)) = value ++ 0 :: behind := by
    simp [cutFields]
  refine ⟨line, _, _, rfl, Multiset.mem_singleton_self _, ?_, ?_⟩
  · rw [rest]
    simp
  · rw [rest, ofBytes_terminated]

/-- The value of a split line is decoded when it has the mark, and is the field otherwise. -/
theorem meets_fieldValue (line : Nat) {text : CStr} {key value : Bytes} {expireAt : Int64}
    (split : splitRow text.bytes = some (key, value, expireAt)) (behind : Bytes)
    (roomy : ∀ marked ∈ markedText text, Roomy miniz marked) :
    Meets (if (ascii "Z:").isPrefixOf value then do
        match ← decodeStream fails junk miniz (value.drop 2) with
        | none => pure none
        | some uncomp => pure (some ⟨some ⟨line, 0⟩, some uncomp, expireAt, some uncomp⟩)
      else pure (some ⟨some ⟨line, 0⟩, some ⟨line, 0 + (key.length + 1)⟩, expireAt, none⟩))
      {(line, .text (cutFields key value behind))} (Parsed fails miniz text line) := by
  have keyPoints := points_keyField line key value behind
  have valuePoints := points_valueField line key value behind
  generalize cutFields key value behind = bytes at keyPoints valuePoints
  by_cases marked : (ascii "Z:").isPrefixOf value = true
  · have field : decodeValue miniz .none value =
        Store.decodeStream miniz .none (value.drop 2) := if_pos marked
    have room : Roomy miniz (value.drop 2) := by
      apply roomy
      rw [markedText, split, Option.bind_some, if_pos marked]
      rfl
    rw [if_pos marked]
    apply (meets_decodeStream fails junk miniz room).bind (zero_add _).symm
    rintro result left (⟨rfl, rfl, unread | ⟨call, failed⟩⟩ | ⟨block, plain, more, rfl, rfl, read⟩)
    · rw [zero_add]
      refine .pure ⟨bytes, .none, fun _ => rfl, rfl, ?_⟩
      rw [Store.parseDbRow, split]
      simp only [field, unread, Option.map_none]
    · rw [zero_add]
      refine .pure ⟨bytes, { ParseFaults.none with comp := true }, fun quiet => ?_, rfl, ?_⟩
      · rw [quiet call] at failed
        contradiction
      · rw [Store.parseDbRow, split]
        simp [decodeValue, marked, Store.decodeStream]
    · have member : (block, Block.text (plain ++ 0 :: more)) ∈
          ({(block, .text (plain ++ 0 :: more))} + {(line, .text bytes)} : Cells) := by
        simp
      refine .pure ⟨bytes, .none, fun _ => rfl, _, ⟨.ofBytes key, .ofBytes plain, expireAt⟩,
        add_comm _ _, leaves_free block _, keyPoints.mono (Multiset.le_add_left _ _), ?_, rfl, ?_⟩
      · exact ⟨block, 0, _, rfl, member, by simp, ofBytes_terminated plain more⟩
      · rw [Store.parseDbRow, split]
        simp only [field, read, Option.map_some]
  · rw [if_neg marked]
    refine .pure ⟨bytes, .none, fun _ => rfl, 0, ⟨.ofBytes key, .ofBytes value, expireAt⟩,
      (add_zero _).symm, leaves_free_null, keyPoints, valuePoints, rfl, ?_⟩
    rw [Store.parseDbRow, split]
    simp [decodeValue, marked]

/-- `parse_db_row` splits the line in place. -/
theorem meets_parseDbRow (line : Nat) {text : CStr} (rest : Bytes)
    (roomy : ∀ marked ∈ markedText text, Roomy miniz marked) :
    Meets (parseDbRow fails junk miniz (some ⟨line, 0⟩)) {(line, .text (text.bytes ++ 0 :: rest))}
      (Parsed fails miniz text line) := by
  have points : Points {(line, .text (text.bytes ++ 0 :: rest))} (some ⟨line, 0⟩) text :=
    ⟨line, 0, text.bytes ++ 0 :: rest, rfl, by simp, by simp,
      (ofBytes_terminated text.bytes rest).trans text.ofBytes_bytes⟩
  apply (returns_readStr points).bind
  cases first : cutAt tab text.bytes with
  | none => exact .pure (parsed_unsplit fails miniz (by rw [splitRow, first]) line _)
  | some cut =>
    obtain ⟨key, behind⟩ := cut
    dsimp only
    cases second : cutAt tab behind with
    | none =>
      have unsplit : splitRow text.bytes = none := by simp [splitRow, first, second]
      exact .pure (parsed_unsplit fails miniz unsplit line _)
    | some cut =>
      obtain ⟨value, time⟩ := cut
      dsimp only
      have shape : text.bytes ++ 0 :: rest =
          key ++ tab :: (value ++ tab :: (time ++ 0 :: rest)) := by
        rw [(cutAt_some first).1, (cutAt_some second).1]
        simp
      rw [shape]
      apply (leaves_firstTab line key value (time ++ 0 :: rest)).bind (add_zero _).symm
      rw [add_zero]
      apply (leaves_secondTab line key value (time ++ 0 :: rest)).bind (add_zero _).symm
      rw [add_zero]
      cases number : strtol time with
      | none =>
        have unsplit : splitRow text.bytes = none := by simp [splitRow, first, second, number]
        exact .pure (parsed_unsplit fails miniz unsplit line _)
      | some scanned =>
        obtain ⟨expireAt, stop⟩ := scanned
        dsimp only
        by_cases whole : stop = []
        · rw [if_neg (not_not_intro whole)]
          have split : splitRow text.bytes = some (key, value, expireAt) := by
            simp [splitRow, first, second, number, whole]
          exact meets_fieldValue fails junk miniz line split (time ++ 0 :: rest) roomy
        · rw [if_pos whole]
          have unsplit : splitRow text.bytes = none := by
            simp [splitRow, first, second, number, whole]
          exact .pure (parsed_unsplit fails miniz unsplit line _)

/-! ## Loading -/

/-- `getline` leaves a buffer to free, with the line unless a call fails. -/
theorem meets_getline {line : Option Ptr} {source : Cells} (freed : Leaves (free line) source 0)
    (text : Bytes) :
    Meets (getline fails line text) source fun result left =>
      Leaves (free result.2) left 0 ∧
        (result.1 = false ∧ (∃ call, fails call = true) ∨
          ∃ block, result = (true, some ⟨block, 0⟩) ∧ left = {(block, .text (text ++ [0]))}) := by
  apply (meets_realloc fails (Block.text (text ++ [0])) freed).andThen
  rintro result left (⟨rfl, rfl, failed⟩ | ⟨fresh, rfl, rfl⟩)
  · exact .pure ⟨freed, .inl ⟨rfl, failed⟩⟩
  · exact .pure ⟨leaves_free fresh _, .inr ⟨fresh, rfl, rfl⟩⟩

/-- What the read loop leaves: an index with its blocks, which some failing calls explain. -/
def AfterLoad (reads : Nat → Bool) (number : Nat) (text : List Bytes) (index : RowIndex)
    (result : Bool × IndexFields) (left : Cells) : Prop :=
  ∃ (silent : SilentFaults) (puts : Nat → PutFaults) (after : RowArrays),
    Stored result.2 left after ∧
    ((∀ call, fails call = false) → silent = .none ∧ puts = fun _ => ⟨false, false⟩) ∧
    match Store.loadFrom miniz silent ⟨reads, puts⟩ number text index with
    | none => result.1 = false
    | some next => result.1 = true ∧ after = next.arrays

variable {fails junk miniz} {reads : Nat → Bool} {number : Nat} {text : List Bytes}
  {index : RowIndex}

/-- A load from a line on does not look at what failed before it. -/
theorem loadFrom_update {silent : SilentFaults} {puts : Nat → PutFaults} {past : Nat}
    (before : past < number) (parse : ParseFaults) (put : PutFaults) :
    Store.loadFrom miniz
        ⟨Function.update silent.getline past false, Function.update silent.parse past parse⟩
        ⟨reads, Function.update puts past put⟩ number text index =
      Store.loadFrom miniz silent ⟨reads, puts⟩ number text index := by
  induction text generalizing number index with
  | nil => rfl
  | cons line rest ih =>
    have other : number ≠ past := by omega
    simp only [Store.loadFrom, Function.update_of_ne other]
    have later : past < number + 1 := by omega
    simp only [ih later]

/-- A line that is read, and what follows it. -/
theorem AfterLoad.behind {line : Bytes} {next : RowIndex} {result : Bool × IndexFields}
    {left : Cells} (after : AfterLoad fails miniz reads (number + 1) text next result left)
    (read : reads number = false) {parse : ParseFaults} {put : PutFaults}
    (quiet : (∀ call, fails call = false) → parse = .none ∧ put = ⟨false, false⟩)
    (stepped : (Store.parseDbRow miniz parse (chomp line) = none ∧ next = index) ∨
      ∃ row, Store.parseDbRow miniz parse (chomp line) = some row ∧
        Store.rowIndexPut put index row = some next) :
    AfterLoad fails miniz reads number (line :: text) index result left := by
  obtain ⟨silent, puts, arr, stored, calm, same⟩ := after
  refine ⟨⟨Function.update silent.getline number false, Function.update silent.parse number parse⟩,
    Function.update puts number put, arr, stored, fun none => ?_, ?_⟩
  · obtain ⟨rfl, rfl⟩ := calm none
    obtain ⟨rfl, rfl⟩ := quiet none
    exact ⟨congrArg₂ SilentFaults.mk (Function.update_eq_self number _)
      (Function.update_eq_self number _), Function.update_eq_self number _⟩
  · rw [Store.loadFrom]
    simp only [read, Function.update_self, Bool.false_eq_true, if_false]
    rcases stepped with ⟨unread, rfl⟩ | ⟨row, parsed, put⟩
    · simp only [unread, loadFrom_update (Nat.lt_succ_self number)]
      exact same
    · simp only [parsed, put, loadFrom_update (Nat.lt_succ_self number)]
      exact same

/-- A row is stored from the line or the block of its value, which is freed, and the loop goes on
unless a call fails. -/
theorem meets_storeParsed {line : Bytes} {block : Nat} {bytes : Bytes} {extra own : Cells}
    {fields : IndexFields} {parsed : RowFields} {row : Row} {parse : ParseFaults}
    {rest : IndexFields → Prog Block (Bool × IndexFields)} (read : reads number = false)
    (stored : Stored fields own index.arrays) (drops : Leaves (freeDbRow parsed) extra 0)
    (key : Points ({(block, .text bytes)} + extra) parsed.key row.key)
    (value : Points ({(block, .text bytes)} + extra) parsed.value row.value)
    (expireAt : parsed.expireAt = row.expireAt)
    (calm : (∀ call, fails call = false) → parse = .none)
    (found : Store.parseDbRow miniz parse (chomp line) = some row)
    (follows : ∀ {own : Cells} {fields : IndexFields} {next : RowIndex},
      Stored fields own next.arrays → Meets (rest fields) ({(block, .text bytes)} + own)
        (AfterLoad fails miniz reads (number + 1) text next)) :
    Meets (rowIndexPut fails fields parsed >>= fun stored => freeDbRow parsed >>= fun _ =>
      if stored.1 then rest stored.2
      else free (some ⟨block, 0⟩) >>= fun _ => pure (false, stored.2))
      ({(block, .text bytes)} + extra + own)
      (AfterLoad fails miniz reads number (line :: text) index) := by
  apply (meets_rowIndexPut fails stored key value expireAt).andThen
  rintro ⟨kept, grown⟩ left ⟨put, cells, arr, rfl, still, quiet, answer⟩
  apply drops.bind (by rw [add_right_comm, add_comm])
  rw [zero_add]
  cases stepped : Store.rowIndexPut put index row with
  | none =>
    rw [stepped] at answer
    rw [if_neg (Bool.eq_false_iff.mp answer)]
    apply (leaves_free block _).bind rfl
    rw [zero_add]
    refine .pure ⟨⟨fun _ => false, fun _ => parse⟩, fun _ => put, arr, still, fun none => ?_, ?_⟩
    · rw [calm none, quiet none]
      exact ⟨rfl, rfl⟩
    · simp [Store.loadFrom, read, found, stepped]
  | some next =>
    rw [stepped] at answer
    obtain ⟨done, rfl⟩ := answer
    rw [if_pos done]
    apply (follows still).weaken
    intro result left after
    exact after.behind read (fun none => ⟨calm none, quiet none⟩) (.inr ⟨row, found, stepped⟩)

/-- The read loop keeps the index and frees its line. -/
theorem meets_loadFrom {line : Option Ptr} {source own : Cells} {fields : IndexFields}
    (roomy : RoomyRows miniz text)
    (freed : Leaves (free line) source 0) (stored : Stored fields own index.arrays) :
    Meets (loadFrom fails junk miniz reads number text line fields) (source + own)
      (AfterLoad fails miniz reads number text index) := by
  induction text generalizing number line source own fields index with
  | nil =>
    apply (meets_getline fails freed []).bind rfl
    rintro got left ⟨gone, -⟩
    apply gone.bind rfl
    rw [zero_add]
    refine .pure ⟨.none, fun _ => ⟨false, false⟩, index.arrays, stored, fun _ => ⟨rfl, rfl⟩, ?_⟩
    rw [Store.loadFrom]
    cases failed : reads number <;> simp [failed]
  | cons first text ih =>
    apply (meets_getline fails freed first).bind rfl
    rintro ⟨enough, fresh⟩ left ⟨gone, got⟩
    cases failed : reads number with
    | true =>
      rw [if_pos rfl]
      apply gone.bind rfl
      rw [zero_add]
      refine .pure ⟨.none, fun _ => ⟨false, false⟩, index.arrays, stored, fun _ => ⟨rfl, rfl⟩, ?_⟩
      rw [Store.loadFrom, if_pos failed]
    | false =>
      rw [if_neg Bool.false_ne_true]
      rcases got with ⟨rfl, call, starved⟩ | ⟨block, same, rfl⟩
      · apply gone.bind rfl
        rw [zero_add]
        refine .pure ⟨⟨fun _ => true, fun _ => .none⟩, fun _ => ⟨false, false⟩, index.arrays,
          stored, fun quiet => ?_, ?_⟩
        · rw [quiet call] at starved
          contradiction
        · simp [Store.loadFrom, failed]
      · obtain ⟨rfl, rfl⟩ := Prod.mk.inj same
        apply (meets_cutLine block first).bind rfl
        rintro ⟨⟩ left ⟨rest, rfl⟩
        have room := roomy first List.mem_cons_self
        have later := fun line member => roomy line (List.mem_cons_of_mem first member)
        apply (meets_parseDbRow fails junk miniz block rest room).bind rfl
        rintro result left ⟨bytes, parse, calm, parsed⟩
        cases result with
        | none =>
          obtain ⟨rfl, unread⟩ := parsed
          apply (ih later (leaves_free block _) stored).weaken
          intro result left after
          exact after.behind failed (fun quiet => ⟨calm quiet, rfl⟩) (.inl ⟨unread, rfl⟩)
        | some parsed =>
          obtain ⟨extra, row, rfl, drops, key, value, expireAt, read⟩ := parsed
          apply meets_storeParsed failed stored drops key value expireAt calm read
          intro own fields next still
          exact ih later (leaves_free block _) still

/-- `load_latest_rows` frees its line. -/
theorem meets_loadLatestRows {content : Bytes} (roomy : RoomyRows miniz (lines content)) :
    Meets (loadLatestRows fails junk miniz reads content) 0
      (AfterLoad fails miniz reads 0 (lines content) .empty) := by
  have start : Stored {} 0 RowIndex.empty.arrays := .blank
  exact meets_loadFrom roomy leaves_free_null start

/-! ## Looking up -/

/-- `row_index_get` points to the row of a key. -/
theorem meets_rowIndexGet {own : Cells} {fields : IndexFields}
    (stored : Stored fields own index.arrays) (key : CStr) :
    Meets (rowIndexGet fields key) own fun result left => left = own ∧
      match index.get key with
      | none => result = none
      | some row => ∃ slot : Slot, slot.row = row ∧ result = some slot.fields ∧
        slot.cells ≤ own := by
  generalize shape : index.arrays = arr at stored
  cases stored with
  | blank =>
    have answer := index.get_arrays key
    rw [shape] at answer
    rw [← Option.some.inj answer]
    exact .pure ⟨rfl, rfl⟩
  | placed arrays len =>
    have slots : table arrays.slots = index.arrays.slots := by rw [shape]
    cases held : index.buckets with
    | none =>
      rw [RowIndex.slots_none held] at slots
      have length : (table arrays.slots).length = 0 := congrArg List.length slots
      have empty : arrays.slots.length = 0 := by rwa [table, List.length_map] at length
      rw [RowIndex.get, held]
      show Meets (if arrays.slots.length = 0 then _ else _) _ _
      rw [if_pos empty]
      exact .pure ⟨rfl, rfl⟩
    | some buckets =>
      rw [RowIndex.slots_some held] at slots
      have length : arrays.slots.length = buckets.slots.length := by
        rw [← slots]
        exact (List.length_map _).symm
      have positive : ¬arrays.slots.length = 0 := by
        rw [length]
        exact buckets.slots_pos.ne'
      show Meets (if arrays.slots.length = 0 then _ else _) _ _
      rw [if_neg positive, RowIndex.get, held]
      apply (arrays.returns_findSlot len (le_refl _) slots key).bind
      rw [Option.bind_some, Probing.Table.get]
      rcases buckets.find_cases key with ⟨missing, -⟩ | ⟨found, row, entry, -⟩
      · rw [missing]
        exact .pure ⟨rfl, rfl⟩
      · rw [found, entry, if_pos rfl, if_pos rfl]
        rw [← slots, table, List.getElem?_map] at entry
        obtain ⟨slot, place, used⟩ := Option.map_eq_some_iff.mp entry
        obtain ⟨slot, rfl, rfl⟩ := Option.map_eq_some_iff.mp used
        apply (arrays.returns_readRow len (Multiset.le_add_right _ _) place).bind
        have inside : slot.cells ≤ arrays.blocks + strings arrays.slots :=
          le_trans (cells_le_strings place) (Multiset.le_add_left _ _)
        exact .pure ⟨rfl, slot, rfl, rfl, inside⟩

/-- What `load_latest_row` leaves: the row copied for the caller, and nothing of the index. -/
def Copied (fails : Nat → Bool) (miniz : Miniz) (reads : Nat → Bool) (key : CStr) (content : Bytes)
    (result : Option (Option RowFields)) (left : Cells) : Prop :=
  ∃ (silent : SilentFaults) (puts : Nat → PutFaults) (copy : Bool),
    ((∀ call, fails call = false) →
      silent = .none ∧ (puts = fun _ => ⟨false, false⟩) ∧ copy = false) ∧
    match Store.loadLatestRow miniz silent ⟨reads, puts⟩ copy key content with
    | none => result = none ∧ left = 0
    | some none => result = some none ∧ left = 0
    | some (some row) => ∃ slot : Slot, slot.row = row ∧ result = some (some slot.fields) ∧
      left = slot.cells

/-- `load_latest_row` frees the index. -/
theorem meets_loadLatestRow {content : Bytes} (key : CStr)
    (roomy : RoomyRows miniz (lines content)) :
    Meets (loadLatestRow fails junk miniz reads key content) 0
      (Copied fails miniz reads key content) := by
  apply (meets_loadLatestRows roomy).andThen
  rintro ⟨done, fields⟩ left ⟨silent, puts, arr, stored, calm, answer⟩
  cases loaded : Store.loadFrom miniz silent ⟨reads, puts⟩ 0 (lines content) .empty with
  | none =>
    rw [loaded] at answer
    rw [if_neg (Bool.eq_false_iff.mp answer)]
    apply (leaves_rowIndexFree stored).bind (add_zero _).symm
    rw [add_zero]
    refine .pure ⟨silent, puts, false, fun quiet => ⟨(calm quiet).1, (calm quiet).2, rfl⟩, ?_⟩
    rw [Store.loadLatestRow, Store.loadLatestRows, loaded]
    exact ⟨rfl, rfl⟩
  | some index =>
    rw [loaded] at answer
    obtain ⟨finished, rfl⟩ := answer
    rw [if_pos finished]
    apply (meets_rowIndexGet stored key).andThen
    rintro found left ⟨rfl, held⟩
    cases latest : index.get key with
    | none =>
      rw [latest] at held
      subst held
      apply (leaves_rowIndexFree stored).bind (add_zero _).symm
      rw [add_zero]
      refine .pure ⟨silent, puts, false, fun quiet => ⟨(calm quiet).1, (calm quiet).2, rfl⟩, ?_⟩
      simp only [Store.loadLatestRow, Store.loadLatestRows, loaded, latest, and_self]
    | some row =>
      rw [latest] at held
      obtain ⟨slot, rfl, rfl, inside⟩ := held
      have copies := meets_replaceRow fails none (slot.points_key.mono inside)
        (slot.points_value.mono inside) rfl
      apply copies.bind ((add_zero _).trans (add_zero _)).symm
      rintro result left (⟨rfl, rfl, call, failed⟩ | ⟨copied, same, rfl, rfl⟩)
      · rw [add_zero, show cellsOf none = 0 from rfl]
        apply (leaves_rowIndexFree stored).bind rfl
        refine .pure ⟨silent, puts, true, fun quiet => ?_, ?_⟩
        · rw [quiet call] at failed
          contradiction
        · simp only [Store.loadLatestRow, Store.loadLatestRows, loaded, latest]
          exact ⟨rfl, add_zero 0⟩
      · rw [add_zero]
        apply (leaves_rowIndexFree stored).bind rfl
        rw [zero_add]
        refine .pure ⟨silent, puts, false, fun quiet => ⟨(calm quiet).1, (calm quiet).2, rfl⟩, ?_⟩
        simp only [Store.loadLatestRow, Store.loadLatestRows, loaded, latest]
        exact ⟨copied, same, rfl, rfl⟩

/-- What `MODE_GET` answers for what `load_latest_row` found. -/
def answer (now : Int64) : Option (Option Row) → Nat × Bytes
  | none => (1, [])
  | some none => (0, [])
  | some (some row) => (0, shown row now)

/-- `MODE_GET` frees the row it shows. -/
theorem meets_runGet {content : Bytes} (key : CStr) (now : Int64)
    (roomy : RoomyRows miniz (lines content)) :
    Meets (runGet fails junk miniz reads key now content) 0 fun result left => left = 0 ∧
      ∃ (silent : SilentFaults) (puts : Nat → PutFaults) (copy : Bool),
        ((∀ call, fails call = false) →
          silent = .none ∧ (puts = fun _ => ⟨false, false⟩) ∧ copy = false) ∧
        result = answer now (Store.loadLatestRow miniz silent ⟨reads, puts⟩ copy key content) := by
  apply (meets_loadLatestRow key roomy).andThen
  rintro result left ⟨silent, puts, copy, calm, found⟩
  cases same : Store.loadLatestRow miniz silent ⟨reads, puts⟩ copy key content with
  | none =>
    rw [same] at found
    obtain ⟨rfl, rfl⟩ := found
    apply leaves_free_null.bind (zero_add 0).symm
    apply leaves_free_null.bind rfl
    refine .pure ⟨add_zero 0, silent, puts, copy, calm, ?_⟩
    rw [same]
    rfl
  | some found' =>
    rw [same] at found
    cases found' with
    | none =>
      obtain ⟨rfl, rfl⟩ := found
      apply leaves_free_null.bind (zero_add 0).symm
      apply leaves_free_null.bind rfl
      refine .pure ⟨add_zero 0, silent, puts, copy, calm, ?_⟩
      rw [same]
      rfl
    | some row =>
      obtain ⟨slot, rfl, rfl, rfl⟩ := found
      apply (returns_readStr slot.points_value).bind
      have all : slot.cells = cellsOf (some slot) + 0 := (add_zero _).symm
      rw [all]
      apply meets_freeStrings (some slot)
      refine .pure ⟨rfl, silent, puts, copy, calm, ?_⟩
      rw [same]
      rfl

/-- A lookup has a result whatever allocation or read fails: it reads and writes inside its blocks
only, frees each of them once, and answers as the failing calls explain. -/
theorem runGet_releases (fails : Nat → Bool) (junk : UInt8) (miniz : Miniz) (reads : Nat → Bool)
    (key : CStr) (now : Int64) (content : Bytes)
    (roomy : RoomyRows miniz (lines content)) :
    ∃ (silent : SilentFaults) (puts : Nat → PutFaults) (copy : Bool) (after : Heap Block),
      runGet fails junk miniz reads key now content .empty =
        some (answer now (Store.loadLatestRow miniz silent ⟨reads, puts⟩ copy key content), after) ∧
      after.cells = [] ∧
      ((∀ call, fails call = false) →
        silent = .none ∧ (puts = fun _ => ⟨false, false⟩) ∧ copy = false) := by
  obtain ⟨result, left, after, ran, holds, rfl, silent, puts, copy, calm, rfl⟩ :=
    (meets_runGet key now roomy).run
  refine ⟨silent, puts, copy, after, ran, ?_, calm⟩
  exact (Multiset.coe_eq_zero _).mp holds

/-- A short plain text fills no buffer. -/
theorem roomy_of_short {text comp plain : Bytes}
    (decoded : Base64.decode 58 text (text.length + 1) = some comp)
    (read : miniz.plain comp = some plain) (short : plain.length < 1024) : Roomy miniz text := by
  intro stream value doublings same text exact
  obtain rfl : comp = stream := Option.some.inj (decoded.symm.trans same)
  obtain rfl : plain = value := Option.some.inj (read.symm.trans text)
  have grown : 0 < 2 ^ doublings := Nat.two_pow_pos doublings
  have least : (comp.length * 4 + 1024) * 1 ≤ (comp.length * 4 + 1024) * 2 ^ doublings :=
    Nat.mul_le_mul_left _ grown
  omega

/-- One compressed row. -/
def compressedRow : Bytes := ascii "k\tZ:eJwrAwAAdwB3\t0\n"

/-- The value of the row is one byte. -/
theorem roomyRows_compressedRow : RoomyRows sampleMiniz (lines compressedRow) := by
  have whole : lines compressedRow = [compressedRow] := by decide
  have field : markedText (chomp compressedRow) = some (ascii "eJwrAwAAdwB3") := by decide
  have decoded : Base64.decode 58 (ascii "eJwrAwAAdwB3") ((ascii "eJwrAwAAdwB3").length + 1) =
      some [0x78, 0x9c, 0x2b, 0x03, 0x00, 0x00, 0x77, 0x00, 0x77] := by
    decide
  have read : sampleMiniz.plain [0x78, 0x9c, 0x2b, 0x03, 0x00, 0x00, 0x77, 0x00, 0x77] =
      some (ascii "v") := rfl
  rw [whole]
  intro line member text inside
  obtain rfl := List.mem_singleton.mp member
  rw [field] at inside
  obtain rfl := Option.some.inj inside
  exact roomy_of_short decoded read (by decide)

/-- The row is looked up while the fifth allocation fails, that of the array `rows`. -/
theorem runGet_releases_compressed :
    ∃ (silent : SilentFaults) (puts : Nat → PutFaults) (copy : Bool) (after : Heap Block),
      runGet (fun call => call = 4) 0 sampleMiniz (fun _ => false) (.ofBytes (ascii "k")) 100
          compressedRow .empty =
        some (answer 100 (Store.loadLatestRow sampleMiniz silent ⟨fun _ => false, puts⟩ copy
          (.ofBytes (ascii "k")) compressedRow), after) ∧
      after.cells = [] ∧
      ((∀ call : Nat, decide (call = 4) = false) →
        silent = .none ∧ (puts = fun _ => ⟨false, false⟩) ∧ copy = false) :=
  runGet_releases _ _ _ _ _ _ _ roomyRows_compressedRow

end StreamPipeline.Store.Memory
