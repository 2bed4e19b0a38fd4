import StreamPipeline.Store.Base64Memory
import StreamPipeline.Store.Format

/-!
# Decompression in memory

`parse_db_row` decodes a compressed value into one buffer and decompresses it into another, which
doubles until the plain text fits. The text gets its terminator where it ends. A plain text that
fills the buffer exactly has no place left for it.
-/

namespace StreamPipeline.Store

open Base64 (around decodeTrace)

/-- `PTRDIFF_MAX`: a larger object is never allocated. -/
abbrev ptrdiffMax : Nat := 2 ^ 63 - 1

/-- `uncomp` after the loop. -/
structure Inflated where
  /-- The plain text, `uncomp_len` bytes. -/
  plain : Bytes
  /-- The size of the allocation. -/
  size : Nat
  deriving DecidableEq

/-- The decompression loop with `uncomp_len` as a `size_t`. It has not ended after the attempts
it may make, fails, or leaves a text in its buffer. -/
def inflateLoop (miniz : Miniz) (faults : ParseFaults) (comp : Bytes) :
    (attempts attempt uncompLen : Nat) → Option (Option Inflated)
  | 0, _, _ => none
  | attempts + 1, attempt, uncompLen =>
    if faults.inflate attempt then some none
    else
      match miniz.uncompress uncompLen comp with
      | .ok plain => some (some ⟨plain, uncompLen⟩)
      | .failed => some none
      | .bufError =>
        let doubled := uncompLen * 2 % 2 ^ 64
        if faults.realloc attempt ∨ doubled = 0 ∨ ptrdiffMax < doubled then some none
        else inflateLoop miniz faults comp attempts (attempt + 1) doubled

/-- `comp_len * 4 + 1024`. -/
def uncompSize (compLen : Nat) : Nat := (compLen * 4 + 1024) % 2 ^ 64

/-- What a row is decompressed into. -/
structure Decompressed where
  /-- The size of `comp`. -/
  compSize : Nat
  /-- The stores of `base64_decode` in `comp`. -/
  compWrites : List (Nat × UInt8)
  /-- The buffer whose text gets a terminator, if the loop got that far. -/
  uncomp : Option Inflated

/-- The decompression of the text behind the mark; none when the loop goes on after as many
attempts as a word has bits. -/
def decompress (miniz : Miniz) (faults : ParseFaults) (text : Bytes) : Option Decompressed :=
  if faults.comp ∨ ptrdiffMax < text.length + 1 then some ⟨0, [], none⟩
  else
    let writes := (decodeTrace (around text fun _ => 58) text.length (text.length + 1)).writes
    match Base64.decode 58 text (text.length + 1) with
    | none => some ⟨text.length + 1, writes, none⟩
    | some comp =>
      if faults.uncomp ∨ ptrdiffMax < uncompSize comp.length then
        some ⟨text.length + 1, writes, none⟩
      else
        (inflateLoop miniz faults comp 64 0 (uncompSize comp.length)).map fun uncomp =>
          ⟨text.length + 1, writes, uncomp⟩

/-- The text behind the mark on a line, when `parse_db_row` gets to it. -/
def markedText (line : CStr) : Option Bytes :=
  (splitRow line.bytes).bind fun row =>
    if (ascii "Z:").isPrefixOf row.2.1 then some (row.2.1.drop 2) else none

/-- Every store of `parse_db_row` is inside its buffer, and its loop ends, whatever fails. -/
def StoresInside (miniz : Miniz) (line : CStr) : Prop :=
  ∀ text ∈ markedText line, ∀ faults, ∃ run, decompress miniz faults text = some run ∧
    (∀ store ∈ run.compWrites, store.1 < run.compSize) ∧
    ∀ uncomp ∈ run.uncomp, uncomp.plain.length < uncomp.size

/-- The buffer a plain text fills exactly: the first one, doubled some times. -/
def ExactFit (miniz : Miniz) (text : Bytes) : Prop :=
  text.length < ptrdiffMax ∧ ∃ comp plain doublings,
    Base64.decode 58 text (text.length + 1) = some comp ∧ miniz.plain comp = some plain ∧
    uncompSize comp.length * 2 ^ doublings ≤ ptrdiffMax ∧
    plain.length = uncompSize comp.length * 2 ^ doublings

section Loop

variable {miniz : Miniz} {faults : ParseFaults} {comp : Bytes}

/-- A size that was allocated doubles without a carry. -/
theorem doubled_eq {uncompLen : Nat} (small : uncompLen ≤ ptrdiffMax) :
    uncompLen * 2 % 2 ^ 64 = uncompLen * 2 := by
  have bound : uncompLen ≤ 2 ^ 63 - 1 := small
  apply Nat.mod_eq_of_lt
  omega

/-- A stream with a plain text is decompressed, into a buffer that holds the text. -/
theorem uncompress_of_plain {plain : Bytes} (read : miniz.plain comp = some plain)
    (capacity : Nat) :
    miniz.uncompress capacity comp = if plain.length ≤ capacity then .ok plain else .bufError := by
  rw [Miniz.uncompress, read]

/-- Other bytes are refused. -/
theorem uncompress_of_none (unreadable : miniz.plain comp = none) (capacity : Nat) :
    miniz.uncompress capacity comp = .failed := by
  rw [Miniz.uncompress, unreadable]

/-- The loop ends: the size doubles past every allocation. -/
theorem inflateLoop_isSome {attempts : Nat} (attempt : Nat) {uncompLen : Nat}
    (small : uncompLen ≤ ptrdiffMax) (past : 0 < uncompLen → ptrdiffMax < uncompLen * 2 ^ attempts)
    (first : 0 < attempts) :
    (inflateLoop miniz faults comp attempts attempt uncompLen).isSome = true := by
  induction attempts generalizing attempt uncompLen with
  | zero => contradiction
  | succ attempts ih =>
    have word := doubled_eq small
    rw [inflateLoop, word]
    by_cases failed : faults.inflate attempt = true
    · rw [if_pos failed]
      rfl
    rw [if_neg failed]
    cases miniz.uncompress uncompLen comp with
    | ok plain => rfl
    | failed => rfl
    | bufError =>
      by_cases stops : faults.realloc attempt = true ∨ uncompLen * 2 = 0 ∨
          ptrdiffMax < uncompLen * 2
      · simp only [if_pos stops]
        rfl
      · simp only [if_neg stops]
        have far := past (by omega)
        have next : uncompLen * 2 ^ (attempts + 1) = uncompLen * 2 * 2 ^ attempts := by ring
        rw [next] at far
        have more : 0 < attempts := by
          by_contra last
          have zero : attempts = 0 := by omega
          rw [zero, pow_zero, Nat.mul_one] at far
          omega
        exact ih (attempt + 1) (by omega) (fun _ => far) more

/-- The buffer of a text is the first one doubled, and the text fits. -/
theorem inflateLoop_spec {attempts attempt uncompLen : Nat} {inflated : Inflated}
    (ends : inflateLoop miniz faults comp attempts attempt uncompLen = some (some inflated))
    (small : uncompLen ≤ ptrdiffMax) :
    miniz.plain comp = some inflated.plain ∧ inflated.plain.length ≤ inflated.size ∧
      inflated.size ≤ ptrdiffMax ∧ ∃ doublings, inflated.size = uncompLen * 2 ^ doublings := by
  induction attempts generalizing attempt uncompLen with
  | zero => contradiction
  | succ attempts ih =>
    have word := doubled_eq small
    rw [inflateLoop, word] at ends
    by_cases failed : faults.inflate attempt = true
    · simp [failed] at ends
    rw [if_neg failed] at ends
    cases read : miniz.plain comp with
    | none =>
      rw [uncompress_of_none read] at ends
      simp at ends
    | some plain =>
      rw [uncompress_of_plain read] at ends
      by_cases fits : plain.length ≤ uncompLen
      · simp only [if_pos fits, Option.some.injEq] at ends
        rw [← ends]
        exact ⟨rfl, fits, small, 0, by simp⟩
      · by_cases stops : faults.realloc attempt = true ∨ uncompLen * 2 = 0 ∨
            ptrdiffMax < uncompLen * 2
        · simp only [if_neg fits, if_pos stops] at ends
          simp at ends
        · simp only [if_neg fits, if_neg stops] at ends
          have later := ih ends (by omega)
          obtain ⟨same, inside, allocated, doublings, size⟩ := later
          refine ⟨read ▸ same, inside, allocated, doublings + 1, ?_⟩
          rw [size]
          ring

/-- A text that fills the first buffer doubled some times gets that buffer. -/
theorem inflateLoop_exact {attempts : Nat} (attempt : Nat) {uncompLen doublings : Nat}
    {plain : Bytes} (read : miniz.plain comp = some plain)
    (fits : plain.length = uncompLen * 2 ^ doublings) (small : plain.length ≤ ptrdiffMax)
    (enough : doublings < attempts) :
    inflateLoop miniz .none comp attempts attempt uncompLen =
      some (some ⟨plain, plain.length⟩) := by
  induction attempts generalizing attempt uncompLen doublings with
  | zero => contradiction
  | succ attempts ih =>
    have works : ParseFaults.none.inflate attempt = false := rfl
    have grows : ParseFaults.none.realloc attempt = false := rfl
    rw [inflateLoop, uncompress_of_plain read, works]
    by_cases inside : plain.length ≤ uncompLen
    · have whole : uncompLen ≤ plain.length := by
        rw [fits]
        exact Nat.le_mul_of_pos_right _ (Nat.two_pow_pos doublings)
      have same : uncompLen = plain.length := by omega
      simp [same]
    · cases doublings with
      | zero => omega
      | succ doublings =>
        have next : plain.length = uncompLen * 2 * 2 ^ doublings := by
          rw [fits]
          ring
        have bound : uncompLen * 2 ≤ plain.length := by
          rw [next]
          exact Nat.le_mul_of_pos_right _ (Nat.two_pow_pos doublings)
        have positive : uncompLen ≠ 0 := by
          intro zero
          rw [zero] at fits
          omega
        have later := ih (attempt + 1) next (by omega)
        have word := doubled_eq (show uncompLen ≤ ptrdiffMax by omega)
        have goes : ¬(ParseFaults.none.realloc attempt = true ∨ uncompLen * 2 = 0 ∨
            ptrdiffMax < uncompLen * 2) := by
          rw [grows, not_or, not_or]
          exact ⟨by decide, by omega, by omega⟩
        rw [word]
        simp only [if_neg inside, if_neg goes]
        simpa using later

end Loop

/-- The decompression gives up before or behind the decoder, or runs the loop on the stream. -/
theorem decompress_cases (miniz : Miniz) (faults : ParseFaults) (text : Bytes) :
    decompress miniz faults text = some ⟨0, [], none⟩ ∨
      decompress miniz faults text = some ⟨text.length + 1,
        (decodeTrace (around text fun _ => 58) text.length (text.length + 1)).writes, none⟩ ∨
      ∃ comp, text.length < ptrdiffMax ∧ Base64.decode 58 text (text.length + 1) = some comp ∧
        uncompSize comp.length ≤ ptrdiffMax ∧
        decompress miniz faults text =
          (inflateLoop miniz faults comp 64 0 (uncompSize comp.length)).map fun uncomp =>
            ⟨text.length + 1,
              (decodeTrace (around text fun _ => 58) text.length (text.length + 1)).writes,
              uncomp⟩ := by
  by_cases refused : faults.comp = true ∨ ptrdiffMax < text.length + 1
  · exact .inl (if_pos refused)
  rw [decompress, if_neg refused]
  cases decoded : Base64.decode 58 text (text.length + 1) with
  | none => exact .inr (.inl rfl)
  | some comp =>
    by_cases large : faults.uncomp = true ∨ ptrdiffMax < uncompSize comp.length
    · exact .inr (.inl (if_pos large))
    · have short : text.length < ptrdiffMax := by
        rw [not_or] at refused
        omega
      have first : uncompSize comp.length ≤ ptrdiffMax := by
        rw [not_or] at large
        exact Nat.le_of_not_lt large.2
      exact .inr (.inr ⟨comp, short, rfl, first, if_neg large⟩)

/-- The loop ends, and needs no more attempts than a word has bits. -/
theorem decompress_isSome (miniz : Miniz) (faults : ParseFaults) (text : Bytes) :
    (decompress miniz faults text).isSome = true := by
  rcases decompress_cases miniz faults text with early | early | ⟨comp, -, -, first, looped⟩
  · rw [early]
    rfl
  · rw [early]
    rfl
  · rw [looped, Option.isSome_map]
    apply inflateLoop_isSome 0 first
    · intro positive
      exact lt_of_lt_of_le (by decide) (Nat.mul_le_mul_right (2 ^ 64) positive)
    · decide

/-- The decoder stores inside `comp`. -/
theorem decompress_writes {miniz : Miniz} {faults : ParseFaults} {text : Bytes}
    {run : Decompressed} (ran : decompress miniz faults text = some run) :
    ∀ store ∈ run.compWrites, store.1 < run.compSize := by
  have inside := @Base64.decodeTrace_writes text (fun _ => 58) (text.length + 1)
  rcases decompress_cases miniz faults text with early | early | ⟨comp, -, -, -, looped⟩
  · rw [early, Option.some.injEq] at ran
    rw [← ran]
    exact fun store member => absurd member List.not_mem_nil
  · rw [early, Option.some.injEq] at ran
    rw [← ran]
    exact inside
  · rw [looped, Option.map_eq_some_iff] at ran
    obtain ⟨uncomp, -, same⟩ := ran
    rw [← same]
    exact inside

/-- The text that gets a terminator is the plain text of the stream, in the first buffer doubled
some times. -/
theorem decompress_uncomp {miniz : Miniz} {faults : ParseFaults} {text : Bytes}
    {run : Decompressed} (ran : decompress miniz faults text = some run) {uncomp : Inflated}
    (left : run.uncomp = some uncomp) :
    text.length < ptrdiffMax ∧ ∃ comp, Base64.decode 58 text (text.length + 1) = some comp ∧
      miniz.plain comp = some uncomp.plain ∧ uncomp.plain.length ≤ uncomp.size ∧
      uncomp.size ≤ ptrdiffMax ∧
      ∃ doublings, uncomp.size = uncompSize comp.length * 2 ^ doublings := by
  rcases decompress_cases miniz faults text with
    early | early | ⟨comp, short, decoded, first, looped⟩
  · rw [early, Option.some.injEq] at ran
    rw [← ran] at left
    contradiction
  · rw [early, Option.some.injEq] at ran
    rw [← ran] at left
    contradiction
  · rw [looped, Option.map_eq_some_iff] at ran
    obtain ⟨ended, loop, same⟩ := ran
    rw [← same] at left
    have whole : ended = some uncomp := left
    rw [whole] at loop
    exact ⟨short, comp, decoded, inflateLoop_spec loop first⟩

/-- A text that fills its buffer does so after few enough attempts. -/
theorem ExactFit.attempts {miniz : Miniz} {text : Bytes} (fit : ExactFit miniz text) :
    ∃ comp plain doublings, Base64.decode 58 text (text.length + 1) = some comp ∧
      miniz.plain comp = some plain ∧ plain.length = uncompSize comp.length * 2 ^ doublings ∧
      plain.length ≤ ptrdiffMax ∧ uncompSize comp.length ≤ ptrdiffMax ∧ doublings < 64 := by
  obtain ⟨-, comp, plain, doublings, decoded, read, allocated, exact⟩ := fit
  have first : uncompSize comp.length ≤ uncompSize comp.length * 2 ^ doublings :=
    Nat.le_mul_of_pos_right _ (Nat.two_pow_pos doublings)
  by_cases zero : uncompSize comp.length = 0
  · exact ⟨comp, plain, 0, decoded, read, by rw [exact, zero]; simp, by omega, by omega, by decide⟩
  · refine ⟨comp, plain, doublings, decoded, read, exact, by omega, by omega, ?_⟩
    have power : 2 ^ doublings ≤ uncompSize comp.length * 2 ^ doublings :=
      Nat.le_mul_of_pos_left _ (Nat.pos_of_ne_zero zero)
    have bound : 2 ^ doublings < 2 ^ 64 :=
      lt_of_le_of_lt (Nat.le_trans power allocated) (by decide)
    exact (Nat.pow_lt_pow_iff_right (by decide)).mp bound

/-- The terminator of a text that fills its buffer is stored behind it. -/
theorem ExactFit.overruns {miniz : Miniz} {line : CStr} {text : Bytes}
    (marked : text ∈ markedText line) (fit : ExactFit miniz text) : ¬StoresInside miniz line := by
  intro inside
  obtain ⟨run, ran, -, terminator⟩ := inside text marked .none
  obtain ⟨comp, plain, doublings, decoded, read, exact, small, first, enough⟩ := fit.attempts
  have taken : ¬(ParseFaults.none.comp = true ∨ ptrdiffMax < text.length + 1) := by
    have short := fit.1
    rw [not_or]
    exact ⟨by decide, by omega⟩
  have given : ¬(ParseFaults.none.uncomp = true ∨ ptrdiffMax < uncompSize comp.length) := by
    rw [not_or]
    exact ⟨by decide, by omega⟩
  have loop := inflateLoop_exact 0 read exact small enough
  simp only [decompress, if_neg taken, decoded, if_neg given, loop, Option.map_some,
    Option.some.injEq] at ran
  have past := terminator ⟨plain, plain.length⟩ (by rw [← ran]; rfl)
  exact Nat.lt_irrefl _ past

/-- What the loop leaves is the value of the row. -/
theorem decodeStream_of_decompress {miniz : Miniz} {faults : ParseFaults} {text : Bytes}
    {run : Decompressed} (ran : decompress miniz faults text = some run) {uncomp : Inflated}
    (left : run.uncomp = some uncomp) :
    decodeStream miniz .none text = some (.ofBytes uncomp.plain) := by
  obtain ⟨-, comp, decoded, read, -⟩ := decompress_uncomp ran left
  rw [decodeStream_none, decoded, Option.bind_some, read, Option.map_some]

/-- On every line the loop ends and the stores stay inside, whatever fails, exactly when no plain
text fills its buffer. -/
theorem storesInside_iff (miniz : Miniz) (line : CStr) :
    StoresInside miniz line ↔ ∀ text ∈ markedText line, ¬ExactFit miniz text := by
  constructor
  · intro inside text marked fit
    exact fit.overruns marked inside
  · intro free text marked faults
    obtain ⟨run, ran⟩ := Option.isSome_iff_exists.mp (decompress_isSome miniz faults text)
    refine ⟨run, ran, decompress_writes ran, ?_⟩
    intro uncomp left
    obtain ⟨short, comp, decoded, read, inside, allocated, doublings, size⟩ :=
      decompress_uncomp ran left
    have apart : uncomp.plain.length ≠ uncomp.size := by
      intro exact
      exact free text marked
        ⟨short, comp, uncomp.plain, doublings, decoded, read, by omega, by omega⟩
    omega

/-- The stream of 1096 times the letter `a`, in 18 bytes. -/
def lettersStream : Bytes :=
  [0x78, 0x9c, 0x4b, 0x4c, 0x1c, 0x05, 0xa3, 0x60, 0x14, 0x8c, 0x02, 0xca, 0x00, 0x00, 0xfe, 0x23,
    0x9f, 0x58]

/-- The letters. -/
def letters : Bytes := List.replicate 1096 97

/-- A decompressor that knows this stream. -/
def lettersMiniz : Miniz where
  compress plain := plain
  plain stream := if stream = lettersStream then some letters else none

/-- A row with the stream. -/
def lettersLine : CStr := .ofBytes (ascii "k\tZ:eJxLTBwFo2AUjALKAAD+I59Y\t0")

/-- The plain text has as many bytes as its buffer. -/
theorem letters_overrun : ¬StoresInside lettersMiniz lettersLine := by
  have decoded : Base64.decode 58 (ascii "eJxLTBwFo2AUjALKAAD+I59Y")
      ((ascii "eJxLTBwFo2AUjALKAAD+I59Y").length + 1) = some lettersStream := by
    decide +kernel
  have read : lettersMiniz.plain lettersStream = some letters := by
    simp [lettersMiniz]
  have length : letters.length = 1096 := List.length_replicate
  have fit : ExactFit lettersMiniz (ascii "eJxLTBwFo2AUjALKAAD+I59Y") := by
    refine ⟨by decide, lettersStream, letters, 0, decoded, read, by decide, ?_⟩
    rw [length]
    decide
  exact fit.overruns (by decide +kernel)

end StreamPipeline.Store
