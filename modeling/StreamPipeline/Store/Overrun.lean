import StreamPipeline.Store.Released

/-!
# The one overrun

The terminator behind a plain text that fills its buffer is the only store of a lookup outside its
block: without failing calls a lookup gets there, and with any other content it never leaves its
blocks, whatever fails.
-/

namespace StreamPipeline.Store.Memory

open Blocks

/-- A terminator behind the end of a block. -/
theorem stuck_terminate (block : Nat) {bytes : Bytes} {place : Nat}
    (outside : bytes.length ≤ place) :
    Stuck (terminate (some ⟨block, 0⟩) place) {(block, .text bytes)} := by
  have member : (block, Block.text bytes) ∈ ({(block, .text bytes)} : Cells) := by simp
  have chars : Returns (chars (some ⟨block, 0⟩)) {(block, .text bytes)} bytes :=
    (returns_load member).bind (.pure ⟨rfl, rfl⟩)
  apply chars.thenStuck
  show Stuck (if place < bytes.length then _ else undefined) _
  rw [if_neg (Nat.not_lt.mpr outside)]
  exact fun heap rest holds => rfl

variable {fails : Nat → Bool} (quiet : ∀ call, fails call = false) (junk : UInt8) {miniz : Miniz}

include quiet in
/-- No call fails. -/
theorem not_failed : ¬∃ call, fails call = true := by
  rintro ⟨call, failed⟩
  rw [quiet call] at failed
  contradiction

/-- A plain text that fills a buffer fills the one the loop ends with. -/
theorem tail_eq_nil {plain tail : Bytes} {capacity doublings fit : Nat}
    (exact : plain.length = capacity * 2 ^ fit)
    (length : (plain ++ tail).length = capacity * 2 ^ doublings)
    (least : doublings = 0 ∨ (plain ++ tail).length < 2 * plain.length) : tail = [] := by
  have more : plain.length ≤ (plain ++ tail).length := by simp
  have ordered : doublings ≤ fit := by
    rcases least with rfl | least
    · exact Nat.zero_le _
    · by_contra past
      have steps : 2 ^ (fit + 1) ≤ 2 ^ doublings := Nat.pow_le_pow_right (by omega) (by omega)
      have grown : capacity * 2 ^ (fit + 1) ≤ capacity * 2 ^ doublings :=
        Nat.mul_le_mul_left _ steps
      have twice : capacity * 2 ^ (fit + 1) = 2 * plain.length := by
        rw [exact, Nat.pow_succ]
        ring
      omega
  have shorter : capacity * 2 ^ doublings ≤ capacity * 2 ^ fit :=
    Nat.mul_le_mul_left _ (Nat.pow_le_pow_right (by omega) ordered)
  have none : tail.length = 0 := by
    have sum : (plain ++ tail).length = plain.length + tail.length := List.length_append
    omega
  exact List.length_eq_zero_iff.mp none

/-- Where sizes fit a word and every plain text can be allocated, the buffer a value fills is the
one whose terminator `parse_db_row` stores past the end. -/
theorem roomy_iff_not_exactFit {text : Bytes} (small : text.length < 2 ^ 60)
    (bounded : ∀ comp plain, Base64.decode 58 text (text.length + 1) = some comp →
      miniz.plain comp = some plain → plain.length ≤ ptrdiffMax) :
    Roomy miniz text ↔ ¬ExactFit miniz text := by
  have size : ∀ comp, Base64.decode 58 text (text.length + 1) = some comp →
      uncompSize comp.length = comp.length * 4 + 1024 := by
    intro comp decoded
    have short := length_decode_le decoded
    exact Nat.mod_eq_of_lt (by omega)
  constructor
  · rintro roomy ⟨-, comp, plain, doublings, decoded, read, -, exact⟩
    rw [size comp decoded] at exact
    exact roomy comp plain doublings decoded read exact
  · intro inexact comp plain doublings decoded read exact
    have allocated := bounded comp plain decoded read
    rw [← size comp decoded] at exact
    have least : text.length < ptrdiffMax := by
      show text.length < 2 ^ 63 - 1
      omega
    exact inexact ⟨least, comp, plain, doublings, decoded, read, exact ▸ allocated, exact⟩

include quiet in
/-- Without failing calls a value that fills its buffer is terminated behind it. -/
theorem stuck_decodeStream {text : Bytes} (full : ¬Roomy miniz text) :
    Stuck (decodeStream fails junk miniz text) 0 := by
  unfold Roomy at full
  push Not at full
  obtain ⟨stream, plain, fit, decoded, read, exact⟩ := full
  apply (meets_alloc fails _).thenStuck (add_zero 0).symm
  rintro result left (⟨-, -, failed⟩ | ⟨comp, rfl, rfl⟩)
  · exact absurd failed (not_failed quiet)
  rw [add_zero]
  show Stuck (inflateDecoded _ _ _ _ (Base64.decode 58 text (text.length + 1))) _
  rw [decoded]
  have fits : stream.length ≤ (List.replicate (text.length + 1) junk).length := by
    rw [List.length_replicate]
    exact length_decode_le decoded
  apply Meets.thenStuck (leaves_overwrite comp fits) (add_zero _).symm
  rintro ⟨⟩ left rfl
  rw [add_zero]
  apply (meets_alloc fails _).thenStuck (zero_add _).symm
  rintro result left (⟨-, -, failed⟩ | ⟨uncomp, rfl, rfl⟩)
  · exact absurd failed (not_failed quiet)
  rw [add_comm ({(uncomp, _)} : Cells)]
  apply (meets_inflate fails junk miniz comp _ stream _ List.length_replicate).thenStuck
    (add_zero _).symm
  rintro result left (⟨-, -, failed⟩ | ⟨inflated, own, rfl, rfl, block, bytes, rfl, ended⟩)
  · exact absurd failed (not_failed quiet)
  rw [add_zero]
  apply Meets.thenStuck (leaves_free comp _) rfl
  rintro ⟨⟩ left rfl
  rw [zero_add]
  rcases ended with ⟨-, unread | failed⟩ | ⟨text, tail, doublings, rfl, same, rfl, length, least⟩
  · rw [read] at unread
    contradiction
  · exact absurd failed (not_failed quiet)
  · obtain rfl : plain = text := Option.some.inj (read.symm.trans same)
    obtain rfl := tail_eq_nil exact length least
    rw [List.append_nil]
    exact (stuck_terminate block (Nat.le_refl _)).bind _

include quiet in
/-- The row of such a value has no result. -/
theorem stuck_parseDbRow (line : Nat) {text : CStr} (rest : Bytes) {marked : Bytes}
    (field : marked ∈ markedText text) (full : ¬Roomy miniz marked) :
    Stuck (parseDbRow fails junk miniz (some ⟨line, 0⟩))
      {(line, .text (text.bytes ++ 0 :: rest))} := by
  have points : Points {(line, .text (text.bytes ++ 0 :: rest))} (some ⟨line, 0⟩) text :=
    ⟨line, 0, text.bytes ++ 0 :: rest, rfl, by simp, by simp,
      (ofBytes_terminated text.bytes rest).trans text.ofBytes_bytes⟩
  apply (returns_readStr points).thenStuck
  rw [markedText] at field
  cases first : cutAt tab text.bytes with
  | none => simp [splitRow, first] at field
  | some cut =>
    obtain ⟨key, behind⟩ := cut
    dsimp only
    cases second : cutAt tab behind with
    | none => simp [splitRow, first, second] at field
    | some cut =>
      obtain ⟨value, time⟩ := cut
      dsimp only
      have shape : text.bytes ++ 0 :: rest =
          key ++ tab :: (value ++ tab :: (time ++ 0 :: rest)) := by
        rw [(cutAt_some first).1, (cutAt_some second).1]
        simp
      rw [shape]
      apply Meets.thenStuck (leaves_firstTab line key value (time ++ 0 :: rest)) (add_zero _).symm
      rintro ⟨⟩ left rfl
      rw [add_zero]
      apply Meets.thenStuck (leaves_secondTab line key value (time ++ 0 :: rest)) (add_zero _).symm
      rintro ⟨⟩ left rfl
      rw [add_zero]
      cases number : strtol time with
      | none => simp [splitRow, first, second, number] at field
      | some scanned =>
        obtain ⟨expireAt, stop⟩ := scanned
        dsimp only
        by_cases whole : stop = []
        · have split : splitRow text.bytes = some (key, value, expireAt) := by
            simp [splitRow, first, second, number, whole]
          rw [split, Option.bind_some] at field
          rw [if_neg (not_not_intro whole)]
          by_cases mark : (ascii "Z:").isPrefixOf value = true
          · rw [if_pos mark] at field ⊢
            obtain rfl := Option.some.inj field
            exact ((stuck_decodeStream quiet junk full).mono (Multiset.zero_le _)).bind _
          · rw [if_neg mark] at field
            contradiction
        · simp [splitRow, first, second, number, whole] at field

include quiet in
/-- A load that reaches such a value has no result. -/
theorem stuck_loadFrom {number : Nat} {text : List Bytes} {line : Option Ptr} {source own : Cells}
    {fields : IndexFields} {index : RowIndex} (full : ¬RoomyRows miniz text)
    (freed : Leaves (free line) source 0) (stored : Stored fields own index.arrays) :
    Stuck (loadFrom fails junk miniz (fun _ => false) number text line fields) (source + own) := by
  induction text generalizing number line source own fields index with
  | nil => exact absurd (fun line member => absurd member List.not_mem_nil) full
  | cons first text ih =>
    apply (meets_getline fails freed first).thenStuck rfl
    rintro ⟨enough, fresh⟩ left ⟨-, ⟨-, failed⟩ | ⟨block, same, rfl⟩⟩
    · exact absurd failed (not_failed quiet)
    obtain ⟨rfl, rfl⟩ := Prod.mk.inj same
    rw [if_neg Bool.false_ne_true, if_pos rfl]
    apply (meets_cutLine block first).thenStuck rfl
    rintro ⟨⟩ left ⟨rest, rfl⟩
    by_cases roomy : ∀ marked ∈ markedText (chomp first), Roomy miniz marked
    · have later : ¬RoomyRows miniz text := by
        intro rows
        apply full
        intro line member
        rcases List.mem_cons.mp member with rfl | behind
        · exact roomy
        · exact rows line behind
      apply (meets_parseDbRow fails junk miniz block rest roomy).thenStuck rfl
      rintro result left ⟨bytes, parse, -, parsed⟩
      cases result with
      | none =>
        obtain ⟨rfl, -⟩ := parsed
        exact ih later (leaves_free block _) stored
      | some parsed =>
        obtain ⟨extra, row, rfl, drops, key, value, expireAt, -⟩ := parsed
        apply (meets_rowIndexPut fails stored key value expireAt).thenStuck (add_zero _).symm
        rintro ⟨kept, grown⟩ left ⟨put, cells, arr, rfl, still, calm, answer⟩
        rw [add_zero]
        apply Meets.thenStuck drops (by rw [add_right_comm, add_comm])
        rintro ⟨⟩ left rfl
        rw [zero_add]
        obtain ⟨next, stepped⟩ := rowIndexPut_none index row
        rw [calm quiet, stepped] at answer
        obtain ⟨done, rfl⟩ := answer
        rw [if_pos done]
        exact ih later (leaves_free block _) still
    · push Not at roomy
      obtain ⟨marked, field, overfull⟩ := roomy
      apply Stuck.bind
      exact (stuck_parseDbRow quiet junk block rest field overfull).mono (Multiset.le_add_right _ _)

/-- Neither has a lookup that fills a buffer, though no call fails. -/
theorem stuck_runGet (key : CStr) (now : Int64) {content : Bytes}
    (full : ¬RoomyRows miniz (lines content)) :
    Stuck (runGet (fun _ => false) junk miniz (fun _ => false) key now content) 0 := by
  have start : Stored {} 0 RowIndex.empty.arrays := .blank
  have quiet : ∀ call : Nat, (fun _ : Nat => false) call = false := fun _ => rfl
  apply Stuck.bind
  apply Stuck.bind
  exact stuck_loadFrom quiet junk full leaves_free_null start

/-- A lookup stays inside its blocks whatever allocation or read fails exactly when no value of the
database fills the buffer it is decompressed into; when one does, the lookup in which nothing fails
stores outside it. -/
theorem runGet_defined_iff (junk : UInt8) (miniz : Miniz) (key : CStr) (now : Int64)
    (content : Bytes) :
    ((∀ (fails reads : Nat → Bool),
      (runGet fails junk miniz reads key now content .empty).isSome = true) ↔
      RoomyRows miniz (lines content)) ∧
    (¬RoomyRows miniz (lines content) →
      runGet (fun _ => false) junk miniz (fun _ => false) key now content .empty = none) := by
  have overrun : ¬RoomyRows miniz (lines content) →
      runGet (fun _ => false) junk miniz (fun _ => false) key now content .empty = none :=
    fun full => stuck_runGet junk key now full .empty 0 rfl
  refine ⟨⟨?_, ?_⟩, overrun⟩
  · intro defined
    by_contra full
    have answers := defined (fun _ => false) (fun _ => false)
    rw [overrun full] at answers
    contradiction
  · intro roomy fails reads
    obtain ⟨result, left, after, ran, -⟩ := (meets_runGet key now roomy).run
    rw [ran]
    rfl

/-- One row with the letters. -/
def lettersRow : Bytes := lettersLine.bytes ++ [10]

/-- The letters fill their buffer. -/
theorem not_roomyRows_lettersRow : ¬RoomyRows lettersMiniz (lines lettersRow) := by
  have whole : lines lettersRow = [lettersRow] := by decide +kernel
  have field : markedText (chomp lettersRow) = some (ascii "eJxLTBwFo2AUjALKAAD+I59Y") := by
    decide +kernel
  have decoded : Base64.decode 58 (ascii "eJxLTBwFo2AUjALKAAD+I59Y")
      ((ascii "eJxLTBwFo2AUjALKAAD+I59Y").length + 1) = some lettersStream := by
    decide +kernel
  have read : lettersMiniz.plain lettersStream = some letters := by
    simp [lettersMiniz]
  intro roomy
  rw [whole] at roomy
  apply roomy lettersRow List.mem_cons_self _ field lettersStream letters 0 decoded read
  exact List.length_replicate

/-- A lookup in the row has no result. -/
theorem runGet_defined_iff_letters :
    runGet (fun _ => false) 0 lettersMiniz (fun _ => false) (.ofBytes (ascii "k")) 100 lettersRow
      .empty = none :=
  (runGet_defined_iff _ _ _ _ _).2 not_roomyRows_lettersRow

end StreamPipeline.Store.Memory
