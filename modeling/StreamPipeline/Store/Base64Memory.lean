import StreamPipeline.Lib.Stores
import StreamPipeline.Store.Base64

/-!
# Base64 in memory

The same functions with the offsets they read and store at. An offset is a `size_t`: the one
before the text is the largest. Memory around the text can hold anything. The traces refine the
functions on byte lists, and decide where those leave their buffers.
-/

namespace StreamPipeline.Store.Base64

open Stores

/-! ## Encoding -/

/-- What a call stores in `out`, and its status. -/
structure Written where
  /-- The stores, in order. -/
  writes : List (Nat × UInt8)
  /-- `0` or `-1`. -/
  status : Int
  deriving DecidableEq

/-- `i < len ? src[i++] : 0`. -/
def octet (src : Bytes) (i : Nat) : UInt8 × Nat :=
  if inside : i < src.length then (src.get ⟨i, inside⟩, i + 1) else (0, i)

/-- Reading an octet does not go back. -/
theorem le_octet (src : Bytes) (i : Nat) : i ≤ (octet src i).2 := by
  unfold octet
  split
  · exact Nat.le_succ i
  · exact Nat.le_refl i

/-- The loop of `base64_encode` from an octet and a symbol on. -/
def encodeFrom (src : Bytes) (i j : Nat) : List (Nat × UInt8) :=
  if i < src.length then
    let a := octet src i
    let b := octet src a.2
    let c := octet src b.2
    consecutive j (encodeTriple a.1 b.1 c.1) ++ encodeFrom src c.2 (j + 4)
  else []
termination_by src.length - i
decreasing_by
  rename_i inside
  have second := le_octet src (octet src i).2
  have third := le_octet src (octet src (octet src i).2).2
  have first : (octet src i).2 = i + 1 := by rw [octet, dif_pos inside]
  omega

/-- `out_len`, as a `size_t`. -/
def encodedLength (len : Nat) : Nat := 4 * ((len + 2) % 2 ^ 64 / 3) % 2 ^ 64

/-- `base64_encode`. -/
def encodeTrace (src : Bytes) (outMax : Nat) : Written :=
  let outLen := encodedLength src.length
  if outMax < outLen + 1 then ⟨[], -1⟩
  else
    let pads := List.range ((3 - src.length % 3) % 3)
    ⟨encodeFrom src 0 0 ++ pads.map (fun pad => (outLen - 1 - pad, padSymbol)) ++ [(outLen, 0)], 0⟩

/-! ## Decoding -/

/-- What a call reads of `src` and stores in `out`, its status and its output length. -/
structure Trace where
  /-- The offsets read, in order. -/
  reads : List Nat
  /-- The stores, in order. -/
  writes : List (Nat × UInt8)
  /-- `0` or `-1`. -/
  status : Int
  /-- What is stored at `out_len`, if anything. -/
  outLen : Option Nat
  deriving DecidableEq

/-- `if (j < ol) out[j++] = byte;`, with the stores so far and `j`. -/
def push (ol : Nat) (byte : UInt8) (sofar : List (Nat × UInt8) × Nat) :
    List (Nat × UInt8) × Nat :=
  if sofar.2 < ol then (sofar.1 ++ [(sofar.2, byte)], sofar.2 + 1) else sofar

section Decode

-- The bytes at the offsets from `src` on.
variable (memory : Nat → UInt8)

/-- The loop of `base64_decode` from a symbol and an octet on. -/
def decodeFrom (len ol i j : Nat) : Trace :=
  if i < len then
    let reads := [i, i + 1, i + 2, i + 3]
    match sextet (memory i), sextet (memory (i + 1)), sextet (memory (i + 2)),
        sextet (memory (i + 3)) with
    | some a, some b, some c, some d =>
      let triple := (a <<< (3 * 6)) + (b <<< (2 * 6)) + (c <<< (1 * 6)) + d
      let stored := push ol (UInt8.ofNat (triple >>> (0 * 8)))
        (push ol (UInt8.ofNat (triple >>> (1 * 8)))
          (push ol (UInt8.ofNat (triple >>> (2 * 8))) ([], j)))
      let later := decodeFrom len ol (i + 4) stored.2
      { later with reads := reads ++ later.reads, writes := stored.1 ++ later.writes }
    | _, _, _, _ => ⟨reads, [], -1, none⟩
  else ⟨[], [], 0, some ol⟩
termination_by len - i

/-- `ol` before the loop. -/
def traceLength (len : Nat) : Nat :=
  let full := len / 4 * 3
  let last := if memory (decrement len) = padSymbol then decrement full else full
  if 1 < len ∧ memory (len - 2) = padSymbol then decrement last else last

/-- The offsets read for `ol`. -/
def lengthReads (len : Nat) : List Nat :=
  decrement len :: if 1 < len then [len - 2] else []

/-- `base64_decode`. -/
def decodeTrace (len outMax : Nat) : Trace :=
  if len % 4 ≠ 0 then ⟨[], [], -1, none⟩
  else if outMax < traceLength memory len then ⟨lengthReads len, [], -1, none⟩
  else
    let loop := decodeFrom memory len (traceLength memory len) 0 0
    { loop with reads := lengthReads len ++ loop.reads }

end Decode

/-- The bytes of a text at its offsets, and any bytes around it. -/
def around (src : Bytes) (outside : Nat → UInt8) (offset : Nat) : UInt8 :=
  src.getD offset (outside offset)

/-! ## What the encoder leaves -/

/-- The octet at an offset inside the text. -/
theorem octet_cons {src rest : Bytes} {i : Nat} {byte : UInt8} (here : src.drop i = byte :: rest) :
    octet src i = (byte, i + 1) ∧ src.drop (i + 1) = rest := by
  have inside : i < src.length := by
    by_contra beyond
    rw [List.drop_eq_nil_of_le (Nat.le_of_not_lt beyond)] at here
    contradiction
  rw [List.drop_eq_getElem_cons inside, List.cons.injEq] at here
  rw [octet, dif_pos inside]
  exact ⟨by rw [← here.1]; rfl, here.2⟩

/-- Behind the text the octet is zero. -/
theorem octet_nil {src : Bytes} {i : Nat} (past : src.drop i = []) : octet src i = (0, i) := by
  rw [octet, dif_neg]
  rw [List.drop_eq_nil_iff] at past
  omega

/-- The loop stores the symbols of all groups, one behind the other. -/
theorem encodeFrom_eq (src : Bytes) (i j : Nat) :
    encodeFrom src i j = consecutive j (encodeGroups (src.drop i)) := by
  have ended {i j : Nat} (past : src.drop i = []) : encodeFrom src i j = [] := by
    rw [encodeFrom, if_neg]
    rw [List.drop_eq_nil_iff] at past
    omega
  have started {i : Nat} {byte : UInt8} {rest : Bytes} (here : src.drop i = byte :: rest) :
      i < src.length := by
    by_contra beyond
    rw [List.drop_eq_nil_of_le (Nat.le_of_not_lt beyond)] at here
    contradiction
  generalize left : src.drop i = text
  induction text using encodeGroups.induct generalizing i j with
  | case1 =>
    rw [ended left]
    rfl
  | case2 a =>
    obtain ⟨first, past⟩ := octet_cons left
    rw [encodeFrom, if_pos (started left)]
    simp only [first, octet_nil past, ended past, List.append_nil]
    rfl
  | case3 a b =>
    obtain ⟨first, next⟩ := octet_cons left
    obtain ⟨second, past⟩ := octet_cons next
    rw [encodeFrom, if_pos (started left)]
    simp only [first, second, octet_nil past, ended past, List.append_nil]
    rfl
  | case4 a b c rest ih =>
    obtain ⟨first, next⟩ := octet_cons left
    obtain ⟨second, third⟩ := octet_cons next
    obtain ⟨third, later⟩ := octet_cons third
    rw [encodeFrom, if_pos (started left)]
    simp only [first, second, third]
    rw [ih _ _ later, encodeGroups, consecutive_append]
    rfl

/-- Below the limit the sizes do not wrap. -/
theorem encodedLength_eq {len : Nat} (small : len < 2 ^ 61) :
    encodedLength len = 4 * ((len + 2) / 3) := by
  rw [encodedLength]
  omega

/-- Stores of padding replace symbols. -/
theorem fills_pads {stores : List (Nat × UInt8)} {out : Bytes} (fills : Fills stores out)
    (size : Nat) (pads : List Nat) (inside : ∀ pad ∈ pads, size - 1 - pad < out.length) :
    Fills (stores ++ pads.map fun pad => (size - 1 - pad, padSymbol))
      (pads.foldl (fun out pad => out.set (size - 1 - pad) padSymbol) out) := by
  induction pads generalizing stores out with
  | nil =>
    rw [List.map_nil, List.append_nil]
    exact fills
  | cons pad pads ih =>
    have here := inside pad List.mem_cons_self
    have later := ih (fills.set here padSymbol) fun other member => by
      rw [List.length_set]
      exact inside other (List.mem_cons_of_mem pad member)
    rwa [List.append_assoc, List.singleton_append] at later

/-- A text that fits is stored with its terminator behind it, and nothing else is. -/
theorem encodeTrace_spec {src text : Bytes} {outMax : Nat} (small : src.length < 2 ^ 61)
    (encoded : encode src outMax = some text) :
    (encodeTrace src outMax).status = 0 ∧
      Fills (encodeTrace src outMax).writes (text ++ [0]) := by
  have length := length_encode encoded
  rw [encode] at encoded
  rw [encodeTrace, encodedLength_eq small]
  split at encoded
  · contradiction
  rename_i room
  rw [Option.some.injEq] at encoded
  rw [if_neg room]
  refine ⟨rfl, ?_⟩
  have groups : Fills (encodeFrom src 0 0) (encodeGroups src) := by
    rw [encodeFrom_eq, List.drop_zero]
    exact fills_consecutive _
  have padded := fills_pads groups (4 * ((src.length + 2) / 3))
    (List.range ((3 - src.length % 3) % 3)) (by
      intro pad member
      rw [length_encodeGroups]
      rw [List.mem_range] at member
      omega)
  rw [encoded] at padded
  have whole := padded.snoc 0
  rw [length] at whole
  exact whole

/-- A text that does not fit is refused before anything is stored. -/
theorem encodeTrace_refused {src : Bytes} {outMax : Nat} (small : src.length < 2 ^ 61)
    (short : outMax < 4 * ((src.length + 2) / 3) + 1) : encodeTrace src outMax = ⟨[], -1⟩ := by
  rw [encodeTrace, encodedLength_eq small]
  exact if_pos short

/-! ## What the decoder reads and leaves -/

/-- The octets of a group are stored as far as the output goes. -/
theorem push_three (ol j : Nat) (x y z : UInt8) :
    push ol z (push ol y (push ol x ([], j))) =
      (consecutive j ([x, y, z].take (ol - j)), j + ([x, y, z].take (ol - j)).length) := by
  by_cases first : j < ol
  · by_cases second : j + 1 < ol
    · by_cases third : j + 1 + 1 < ol
      · have three : ol - j = (ol - j - 3) + 3 := by omega
        rw [three]
        simp [push, first, second, third, consecutive]
      · have two : ol - j = 2 := by omega
        simp [push, first, second, third, two, consecutive]
    · have one : ol - j = 1 := by omega
      simp [push, first, second, one, consecutive]
  · have zero : ol - j = 0 := by omega
    simp [push, first, zero, consecutive]

section Reading

variable {src : Bytes} (outside : Nat → UInt8)

/-- The memory holds the text at its offsets. -/
theorem around_drop {i : Nat} {byte : UInt8} {rest : Bytes} (here : src.drop i = byte :: rest) :
    around src outside i = byte ∧ src.drop (i + 1) = rest := by
  have found := congrArg List.head? here
  rw [List.head?_drop, List.head?_cons] at found
  refine ⟨?_, ?_⟩
  · rw [around, List.getD_eq_getElem?_getD, found, Option.getD_some]
  · rw [← List.tail_drop, here, List.tail_cons]

/-- What the decoding loop does: it stays inside the text and the output, and stores the octets
of the groups as far as the output goes. -/
theorem decodeFrom_spec (ol i j : Nat) (whole : (src.length - i) % 4 = 0) :
    (∀ offset ∈ (decodeFrom (around src outside) src.length ol i j).reads, offset < src.length) ∧
      (∀ store ∈ (decodeFrom (around src outside) src.length ol i j).writes, store.1 < ol) ∧
      match decodeGroups (src.drop i) with
      | none => (decodeFrom (around src outside) src.length ol i j).status = -1
      | some octets =>
        (decodeFrom (around src outside) src.length ol i j).status = 0 ∧
          (decodeFrom (around src outside) src.length ol i j).outLen = some ol ∧
          (decodeFrom (around src outside) src.length ol i j).writes =
            consecutive j (octets.take (ol - j)) := by
  generalize left : src.drop i = text
  induction text using decodeGroups.induct generalizing i j with
  | case2 text short =>
    have past : ¬i < src.length := by
      have size := congrArg List.length left
      rw [List.length_drop] at size
      intro inside
      match text, short with
      | [], _ => simp at size; omega
      | [_], _ => simp at size; omega
      | [_, _], _ => simp at size; omega
      | [_, _, _], _ => simp at size; omega
      | a :: b :: c :: d :: rest, short => exact short a b c d rest rfl
    have empty : text = [] := by rw [← left, List.drop_eq_nil_iff]; omega
    rw [decodeFrom, if_neg past, empty]
    simp [decodeGroups, consecutive]
  | case1 a b c d rest ih =>
    have size := congrArg List.length left
    rw [List.length_drop, List.length_cons, List.length_cons, List.length_cons,
      List.length_cons] at size
    obtain ⟨first, next⟩ := around_drop outside left
    obtain ⟨second, next⟩ := around_drop outside next
    obtain ⟨third, next⟩ := around_drop outside next
    obtain ⟨fourth, next⟩ := around_drop outside next
    have here : ∀ offset ∈ [i, i + 1, i + 2, i + 3], offset < src.length := by
      intro offset member
      simp only [List.mem_cons, List.not_mem_nil, or_false] at member
      omega
    rw [decodeFrom, if_pos (by omega)]
    simp only [first, second, third, fourth]
    split
    · rename_i a' b' c' d' readA readB readC readD
      simp only [push_three]
      set octets := [UInt8.ofNat (((a' <<< (3 * 6)) + (b' <<< (2 * 6)) + (c' <<< (1 * 6)) + d')
          >>> (2 * 8)), UInt8.ofNat (((a' <<< (3 * 6)) + (b' <<< (2 * 6)) + (c' <<< (1 * 6)) + d')
          >>> (1 * 8)), UInt8.ofNat (((a' <<< (3 * 6)) + (b' <<< (2 * 6)) + (c' <<< (1 * 6)) + d')
          >>> (0 * 8))] with shape
      have groups : decodeGroups (a :: b :: c :: d :: rest) =
          (decodeGroups rest).map (octets ++ ·) := by
        simp only [decodeGroups, readA, readB, readC, readD, Option.bind_eq_bind,
          Option.bind_some, shape]
        cases decodeGroups rest <;> rfl
      have taken : (octets.take (ol - j)).length = min (ol - j) 3 := List.length_take
      obtain ⟨reads, writes, outcome⟩ := ih (i + 4) (j + (octets.take (ol - j)).length) (by omega)
        next
      refine ⟨?_, ?_, ?_⟩
      · intro offset member
        rcases List.mem_append.mp member with now | later
        · exact here offset now
        · exact reads offset later
      · intro store member
        rcases List.mem_append.mp member with now | later
        · have range := mem_consecutive now
          omega
        · exact writes store later
      · rw [groups]
        cases later : decodeGroups rest with
        | none => simpa [later] using outcome
        | some more =>
          simp only [later] at outcome
          obtain ⟨status, outLen, stored⟩ := outcome
          refine ⟨status, outLen, ?_⟩
          show consecutive j (octets.take (ol - j)) ++ _ = consecutive j ((octets ++ more).take _)
          rw [stored, List.take_append, consecutive_append, taken]
          congr 3
          show _ = ol - j - 3
          omega
    · rename_i unread
      have none : decodeGroups (a :: b :: c :: d :: rest) = Option.none := by
        cases readA : sextet a with
        | none => simp [decodeGroups, readA]
        | some a' =>
          cases readB : sextet b with
          | none => simp [decodeGroups, readA, readB]
          | some b' =>
            cases readC : sextet c with
            | none => simp [decodeGroups, readA, readB, readC]
            | some c' =>
              cases readD : sextet d with
              | none => simp [decodeGroups, readA, readB, readC, readD]
              | some d' => exact absurd readD (unread a' b' c' d' readA readB readC)
      rw [none]
      exact ⟨here, fun store member => absurd member List.not_mem_nil, rfl⟩

/-- The output length is that of the text behind the byte before it. -/
theorem traceLength_eq :
    traceLength (around src outside) src.length = outLen (outside (2 ^ 64 - 1)) src := by
  have last : around src outside (decrement src.length) =
      src.getLast?.getD (outside (2 ^ 64 - 1)) := by
    rcases List.eq_nil_or_concat src with rfl | ⟨front, byte, rfl⟩
    · rfl
    · rw [List.concat_eq_append, List.getLast?_append_of_ne_nil _ (by simp)]
      simp [around, decrement]
  have second : 1 < src.length →
      (around src outside (src.length - 2) = padSymbol ↔
        src[src.length - 2]? = some padSymbol) := by
    intro long
    rw [around, List.getD_eq_getElem?_getD, List.getElem?_eq_getElem (by omega),
      Option.getD_some, Option.some.injEq]
  rw [traceLength, outLen, last]
  by_cases long : 1 < src.length
  · simp only [long, second long, true_and]
  · simp only [long, false_and]

/-- No store of the decoder is beyond the output. -/
theorem decodeTrace_writes (outMax : Nat) :
    ∀ store ∈ (decodeTrace (around src outside) src.length outMax).writes, store.1 < outMax := by
  rw [decodeTrace]
  split
  · exact fun store member => absurd member List.not_mem_nil
  rename_i grouped
  split
  · exact fun store member => absurd member List.not_mem_nil
  · rename_i room
    intro store member
    have inside := (decodeFrom_spec outside _ 0 0 (by omega)).2.1 store member
    omega

/-- The decoder reads inside a text that is not empty. -/
theorem decodeTrace_reads (nonempty : src ≠ []) (outMax : Nat) :
    ∀ offset ∈ (decodeTrace (around src outside) src.length outMax).reads,
      offset < src.length := by
  have positive : 0 < src.length := List.length_pos_iff.mpr nonempty
  have start : ∀ offset ∈ lengthReads src.length, offset < src.length := by
    intro offset member
    rw [lengthReads, decrement, if_neg (by omega)] at member
    split at member
    · simp only [List.mem_cons, List.not_mem_nil, or_false] at member
      omega
    · simp only [List.mem_singleton] at member
      omega
  rw [decodeTrace]
  split
  · exact fun offset member => absurd member List.not_mem_nil
  split
  · exact start
  · intro offset member
    rcases List.mem_append.mp member with now | later
    · exact start offset now
    · exact (decodeFrom_spec outside _ 0 0 (by omega)).1 offset later

/-- The decoder succeeds when the function on byte lists does, with its octets in the output. -/
theorem decodeTrace_spec (outMax : Nat) :
    match decode (outside (2 ^ 64 - 1)) src outMax with
    | none => (decodeTrace (around src outside) src.length outMax).status = -1
    | some octets =>
      (decodeTrace (around src outside) src.length outMax).status = 0 ∧
        (decodeTrace (around src outside) src.length outMax).outLen =
          some (outLen (outside (2 ^ 64 - 1)) src) ∧
        Fills (decodeTrace (around src outside) src.length outMax).writes octets := by
  rw [decode, decodeTrace, traceLength_eq]
  by_cases ragged : src.length % 4 ≠ 0
  · rw [if_pos ragged, if_pos ragged]
  rw [if_neg ragged, if_neg ragged]
  by_cases short : outMax < outLen (outside (2 ^ 64 - 1)) src
  · rw [if_pos short, if_pos short]
  rw [if_neg short, if_neg short]
  have outcome := (@decodeFrom_spec src outside (outLen (outside (2 ^ 64 - 1)) src) 0 0
    (by omega)).2.2
  rw [List.drop_zero] at outcome
  cases found : decodeGroups src with
  | none =>
    rw [found] at outcome
    exact outcome
  | some octets =>
    rw [found] at outcome
    obtain ⟨status, outLen, stored⟩ := outcome
    refine ⟨status, outLen, ?_⟩
    show Fills (decodeFrom _ _ _ 0 0).writes _
    rw [stored, Nat.sub_zero]
    exact fills_consecutive _

end Reading

/-- The text of octets is stored with its terminator and nothing else is, and decodes in any
large enough output, whatever stands around it; a smaller output is left alone. -/
theorem base64_round_trip {src : Bytes} (nonempty : src ≠ []) (small : src.length < 2 ^ 61) :
    (∀ outMax, 4 * ((src.length + 2) / 3) + 1 ≤ outMax →
      (encodeTrace src outMax).status = 0 ∧
        ∃ text : Bytes, text.length = 4 * ((src.length + 2) / 3) ∧ 0 ∉ text ∧
          Fills (encodeTrace src outMax).writes (text ++ [0]) ∧
          ∀ outside decodeMax, src.length ≤ decodeMax →
            (decodeTrace (around text outside) text.length decodeMax).status = 0 ∧
              (decodeTrace (around text outside) text.length decodeMax).outLen =
                some src.length ∧
              Fills (decodeTrace (around text outside) text.length decodeMax).writes src) ∧
      ∀ outMax, outMax < 4 * ((src.length + 2) / 3) + 1 → encodeTrace src outMax = ⟨[], -1⟩ := by
  refine ⟨?_, fun outMax short => encodeTrace_refused small short⟩
  intro outMax room
  obtain ⟨text, encoded⟩ := @encode_isSome src outMax room
  obtain ⟨status, stored⟩ := encodeTrace_spec small encoded
  refine ⟨status, text, length_encode encoded, not_mem_encode encoded (by decide), stored, ?_⟩
  intro outside decodeMax enough
  have decoded : decode (outside (2 ^ 64 - 1)) text decodeMax = some src :=
    decode_encode (fun empty => absurd empty nonempty) encoded enough
  have outcome := @decodeTrace_spec text outside decodeMax
  rw [decoded] at outcome
  obtain ⟨status, length, filled⟩ := outcome
  rw [outLen_encode (fun empty => absurd empty nonempty) encoded] at length
  exact ⟨status, length, filled⟩

/-- The round trip of one octet, whose text ends in two padding symbols. -/
theorem base64_round_trip_octet :
    (∀ outMax, 4 * ((([77] : Bytes).length + 2) / 3) + 1 ≤ outMax →
      (encodeTrace [77] outMax).status = 0 ∧
        ∃ text : Bytes, text.length = 4 * ((([77] : Bytes).length + 2) / 3) ∧ 0 ∉ text ∧
          Fills (encodeTrace [77] outMax).writes (text ++ [0]) ∧
          ∀ outside decodeMax, ([77] : Bytes).length ≤ decodeMax →
            (decodeTrace (around text outside) text.length decodeMax).status = 0 ∧
              (decodeTrace (around text outside) text.length decodeMax).outLen =
                some ([77] : Bytes).length ∧
              Fills (decodeTrace (around text outside) text.length decodeMax).writes [77]) ∧
      ∀ outMax, outMax < 4 * ((([77] : Bytes).length + 2) / 3) + 1 →
        encodeTrace [77] outMax = ⟨[], -1⟩ :=
  base64_round_trip (by decide) (by decide)

/-! ## What the decoder accepts -/

/-- Whole groups of symbols, the last one or the last two of which may be padding. -/
structure IsBase64 (src : Bytes) : Prop where
  /-- Groups of four. -/
  groups : src.length % 4 = 0
  /-- Symbols of the alphabet in front of the padding. -/
  symbols : ∃ body pads, src = body ++ pads ∧ (∀ c ∈ body, (b64Index c).isSome = true) ∧
    (pads = [] ∨ pads = [padSymbol] ∨ pads = [padSymbol, padSymbol])

/-- Padding in front of the last two symbols, or alone in front of the last one. -/
def Misplaced (src : Bytes) : Prop :=
  ∃ index, src[index]? = some padSymbol ∧
    (index + 2 < src.length ∨ index + 2 = src.length ∧ src.getLast? ≠ some padSymbol)

/-- Padding is no symbol of the alphabet. -/
theorem b64Index_padSymbol : b64Index padSymbol = none := by decide

/-- What the loop reads is a symbol or padding. -/
theorem sextet_isSome {c : UInt8} :
    (sextet c).isSome = true ↔ c = padSymbol ∨ (b64Index c).isSome = true := by
  rw [sextet]
  split
  · rename_i pad
    simp [pad]
  · rename_i other
    simp [other]

/-- The loop succeeds when it can read every symbol. -/
theorem decodeGroups_isSome {src : Bytes} (groups : src.length % 4 = 0) :
    (decodeGroups src).isSome = true ↔ ∀ c ∈ src, (sextet c).isSome = true := by
  induction src using decodeGroups.induct with
  | case1 a b c d rest ih =>
    have later : rest.length % 4 = 0 := by
      simp only [List.length_cons] at groups
      omega
    have rest := ih later
    simp only [List.forall_mem_cons, ← rest, decodeGroups]
    cases sextet a <;> cases sextet b <;> cases sextet c <;> cases sextet d <;>
      cases decodeGroups _ <;> simp
  | case2 src short =>
    have empty : src = [] := by
      rcases src with _ | ⟨a, _ | ⟨b, _ | ⟨c, _ | ⟨d, rest⟩⟩⟩⟩
      · rfl
      · contradiction
      · contradiction
      · contradiction
      · exact absurd rfl (short a b c d rest)
    simp [empty, decodeGroups]

/-- Readable symbols without padding are symbols of the alphabet. -/
theorem symbols_of_unpadded {body : Bytes} (readable : ∀ c ∈ body, (sextet c).isSome = true)
    (unpadded : ∀ index : Nat, body[index]? ≠ some padSymbol) :
    ∀ c ∈ body, (b64Index c).isSome = true := by
  intro c member
  rcases sextet_isSome.mp (readable c member) with rfl | symbol
  · obtain ⟨index, found⟩ := List.mem_iff_getElem?.mp member
    exact absurd found (unpadded index)
  · exact symbol

/-- A text that ends in its own padding has none of it misplaced. -/
theorem IsBase64.not_misplaced {src : Bytes} (base64 : IsBase64 src) : ¬Misplaced src := by
  rintro ⟨index, found, place⟩
  obtain ⟨body, pads, rfl, symbols, shape⟩ := base64.symbols
  have behind : body.length ≤ index := by
    by_contra inside
    rw [List.getElem?_append_left (by omega)] at found
    have symbol := symbols _ (List.mem_of_getElem? found)
    rw [b64Index_padSymbol] at symbol
    contradiction
  rw [List.length_append] at place
  rcases shape with rfl | rfl | rfl
  · simp only [List.length_nil] at place
    omega
  · simp only [List.length_singleton] at place
    omega
  · simp only [List.length_cons, List.length_nil, List.getLast?_append] at place
    rcases place with far | ⟨-, last⟩
    · omega
    · exact last rfl

/-- A readable text of whole groups is base64 when no padding is misplaced. -/
theorem isBase64_iff {src : Bytes} (groups : src.length % 4 = 0)
    (readable : ∀ c ∈ src, (sextet c).isSome = true) : IsBase64 src ↔ ¬Misplaced src := by
  refine ⟨IsBase64.not_misplaced, fun placed => ⟨groups, ?_⟩⟩
  have early {index : Nat} (found : src[index]? = some padSymbol) : src.length ≤ index + 2 := by
    by_contra far
    exact placed ⟨index, found, .inl (by omega)⟩
  rcases List.eq_nil_or_concat src with rfl | ⟨front, last, shape⟩
  · exact ⟨[], [], rfl, by simp, .inl rfl⟩
  rw [List.concat_eq_append] at shape
  have ending : src.getLast? = some last := by rw [shape, List.getLast?_concat]
  have length : src.length = front.length + 1 := by rw [shape, List.length_append]; rfl
  have infront {index : Nat} (inside : index < front.length) : src[index]? = front[index]? := by
    rw [shape, List.getElem?_append_left inside]
  have frontReadable : ∀ c ∈ front, (sextet c).isSome = true := by
    intro c member
    exact readable c (by rw [shape]; exact List.mem_append_left _ member)
  by_cases pad : last = padSymbol
  · rcases List.eq_nil_or_concat front with rfl | ⟨body, second, shorter⟩
    · exact ⟨[], [padSymbol], by rw [shape, pad], by simp, .inr (.inl rfl)⟩
    rw [List.concat_eq_append] at shorter
    have bodyLength : front.length = body.length + 1 := by rw [shorter, List.length_append]; rfl
    by_cases double : second = padSymbol
    · refine ⟨body, [padSymbol, padSymbol], by rw [shape, shorter, pad, double]; simp, ?_,
        .inr (.inr rfl)⟩
      apply symbols_of_unpadded
      · exact fun c member => frontReadable c (by rw [shorter]; exact List.mem_append_left _ member)
      · intro index found
        have inside := (List.getElem?_eq_some_iff.mp found).1
        have within : index < front.length := by omega
        have late := early (by
          rw [infront within, shorter, List.getElem?_append_left inside, found])
        omega
    · refine ⟨front, [padSymbol], by rw [shape, pad], ?_, .inr (.inl rfl)⟩
      apply symbols_of_unpadded frontReadable
      intro index found
      have inside := (List.getElem?_eq_some_iff.mp found).1
      have late := early (by rw [infront inside, found])
      have place : index = body.length := by omega
      rw [place, shorter, List.getElem?_concat_length, Option.some.injEq] at found
      exact double found
  · refine ⟨src, [], (List.append_nil src).symm, ?_, .inl rfl⟩
    apply symbols_of_unpadded readable
    intro index found
    have inside := (List.getElem?_eq_some_iff.mp found).1
    have late := early found
    by_cases here : index + 2 = src.length
    · refine placed ⟨index, found, .inr ⟨here, ?_⟩⟩
      rw [ending, ne_eq, Option.some.injEq]
      exact pad
    · have place : index = front.length := by omega
      rw [place, shape, List.getElem?_concat_length, Option.some.injEq] at found
      exact pad found

/-- Base64 can be read. -/
theorem IsBase64.readable {src : Bytes} (base64 : IsBase64 src) :
    ∀ c ∈ src, (sextet c).isSome = true := by
  obtain ⟨body, pads, rfl, symbols, shape⟩ := base64.symbols
  intro c member
  rw [sextet_isSome]
  rcases List.mem_append.mp member with inside | behind
  · exact .inr (symbols c inside)
  · rcases shape with rfl | rfl | rfl
    · contradiction
    · exact .inl (List.mem_singleton.mp behind)
    · simp only [List.mem_cons, List.not_mem_nil, or_false, or_self] at behind
      exact .inl behind

/-- The byte before a text that is not empty plays no part in its output length. -/
theorem outLen_nonempty {src : Bytes} (nonempty : src ≠ []) (before : UInt8) :
    outLen before src = outLen 0 src := by
  rw [outLen, outLen, List.getLast?_eq_some_getLast nonempty]
  rfl

/-- The decoder reads only the text, stores only in the output and accepts exactly base64. -/
def DecodesExactly (src : Bytes) (outside : Nat → UInt8) (outMax : Nat) : Prop :=
  (∀ offset ∈ (decodeTrace (around src outside) src.length outMax).reads, offset < src.length) ∧
    (∀ store ∈ (decodeTrace (around src outside) src.length outMax).writes, store.1 < outMax) ∧
    ((decodeTrace (around src outside) src.length outMax).status = 0 ↔ IsBase64 src)

/-- In an output that holds the octets the decoder is exact on every text but the empty one and
those of whole groups of symbols and padding with padding misplaced. -/
theorem decodesExactly_iff {src : Bytes} (outside : Nat → UInt8) {outMax : Nat}
    (room : outLen 0 src ≤ outMax) :
    DecodesExactly src outside outMax ↔
      src ≠ [] ∧ (src.length % 4 = 0 → (∀ c ∈ src, c = padSymbol ∨ (b64Index c).isSome = true) →
        ¬Misplaced src) := by
  by_cases empty : src = []
  · subst empty
    refine iff_of_false ?_ (fun both => both.1 rfl)
    rintro ⟨reads, -⟩
    have first : decrement 0 ∈
        (decodeTrace (around [] outside) ([] : Bytes).length outMax).reads := by
      rw [decodeTrace, if_neg (by decide)]
      split <;> simp [lengthReads]
    exact absurd (reads _ first) (Nat.not_lt_zero _)
  have status : (decodeTrace (around src outside) src.length outMax).status = 0 ↔
      src.length % 4 = 0 ∧ ∀ c ∈ src, (sextet c).isSome = true := by
    have outcome := @decodeTrace_spec src outside outMax
    rw [decode, outLen_nonempty empty] at outcome
    by_cases groups : src.length % 4 = 0
    · rw [if_neg (by omega), if_neg (by omega)] at outcome
      rw [← decodeGroups_isSome groups]
      cases found : decodeGroups src with
      | none =>
        rw [found] at outcome
        simp [groups, show (decodeTrace _ _ _).status = -1 from outcome]
      | some octets =>
        rw [found] at outcome
        simp [groups, outcome.1]
    · rw [if_pos groups] at outcome
      simp [groups, show (decodeTrace _ _ _).status = -1 from outcome]
  have both : DecodesExactly src outside outMax ↔
      (src.length % 4 = 0 ∧ (∀ c ∈ src, (sextet c).isSome = true) ↔ IsBase64 src) := by
    rw [DecodesExactly, status]
    exact ⟨fun exact => exact.2.2, fun same =>
      ⟨decodeTrace_reads outside empty outMax, decodeTrace_writes outside outMax, same⟩⟩
  rw [both]
  simp only [← sextet_isSome]
  constructor
  · intro same
    refine ⟨empty, fun groups readable => ?_⟩
    exact (same.mp ⟨groups, readable⟩).not_misplaced
  · rintro ⟨-, placed⟩
    constructor
    · rintro ⟨groups, readable⟩
      exact (isBase64_iff groups readable).mpr (placed groups readable)
    · exact fun base64 => ⟨base64.groups, base64.readable⟩

/-- A text with one octet is decoded exactly. -/
theorem decodesExactly_iff_padded :
    DecodesExactly (ascii "TQ==") (fun _ => 0) 1 ↔
      ascii "TQ==" ≠ [] ∧ ((ascii "TQ==").length % 4 = 0 →
        (∀ c ∈ ascii "TQ==", c = padSymbol ∨ (b64Index c).isSome = true) →
          ¬Misplaced (ascii "TQ==")) :=
  decodesExactly_iff (fun _ => 0) (by decide)

/-- Padding in the second place is taken for a zero. -/
theorem misplaced_accepted : ¬DecodesExactly (ascii "T===") (fun _ => 0) 1 := by
  intro exact
  have decoded : decode 0 (ascii "T===") 1 = some [76] := by decide
  have outcome := @decodeTrace_spec (ascii "T===") (fun _ => 0) 1
  rw [decoded] at outcome
  have accepted := exact.2.2.mp outcome.1
  exact accepted.not_misplaced ⟨1, rfl, .inl (by decide)⟩

end StreamPipeline.Store.Base64
