import StreamPipeline.Lib.Bytes

/-!
# Base64 text of compressed values

The encoder packs three octets into four symbols and overwrites the padded tail; the decoder
reads four symbols at a time, takes `=` for zero anywhere, and drops the padded octets by the
output length it computed first. Lengths are naturals: no buffer fills the address space.
-/

namespace StreamPipeline.Store.Base64

/-- The symbols of the sextets. -/
def table : Bytes := ascii "ABCDEFGHIJKLMNOPQRSTUVWXYZabcdefghijklmnopqrstuvwxyz0123456789+/"

/-- The padding symbol. -/
abbrev padSymbol : UInt8 := 61

/-- The symbol of a sextet. -/
def symbol (sextet : Nat) : UInt8 := table.getD (sextet &&& 0x3F) 0

/-- The four symbols of three octets. -/
def encodeTriple (a b c : UInt8) : Bytes :=
  let triple := (a.toNat <<< 0x10) + (b.toNat <<< 0x08) + c.toNat
  [symbol (triple >>> (3 * 6)), symbol (triple >>> (2 * 6)), symbol (triple >>> (1 * 6)),
    symbol (triple >>> (0 * 6))]

/-- The symbols of all octets, a missing octet read as zero. -/
def encodeGroups : Bytes → Bytes
  | [] => []
  | [a] => encodeTriple a 0 0
  | [a, b] => encodeTriple a b 0
  | a :: b :: c :: rest => encodeTriple a b c ++ encodeGroups rest

/-- `base64_encode`: the text before its terminator, when it fits. -/
def encode (src : Bytes) (outMax : Nat) : Option Bytes :=
  let outLen := 4 * ((src.length + 2) / 3)
  if outMax < outLen + 1 then none
  else
    let pads := List.range ((3 - src.length % 3) % 3)
    some (pads.foldl (fun out pad => out.set (outLen - 1 - pad) padSymbol) (encodeGroups src))

/-- The sextet of a symbol. -/
def b64Index (c : UInt8) : Option Nat :=
  if 65 ≤ c && c ≤ 90 then some (c.toNat - 65)
  else if 97 ≤ c && c ≤ 122 then some (c.toNat - 97 + 26)
  else if 48 ≤ c && c ≤ 57 then some (c.toNat - 48 + 52)
  else if c == 43 then some 62
  else if c == 47 then some 63
  else none

/-- The sextet the decoder reads; padding is zero in every position. -/
def sextet (c : UInt8) : Option Nat := if c = padSymbol then some 0 else b64Index c

/-- The octets of all complete groups of four symbols. -/
def decodeGroups : Bytes → Option Bytes
  | a :: b :: c :: d :: rest => do
    let a ← sextet a
    let b ← sextet b
    let c ← sextet c
    let d ← sextet d
    let triple := (a <<< (3 * 6)) + (b <<< (2 * 6)) + (c <<< (1 * 6)) + d
    let later ← decodeGroups rest
    some (UInt8.ofNat (triple >>> (2 * 8)) :: UInt8.ofNat (triple >>> (1 * 8)) ::
      UInt8.ofNat (triple >>> (0 * 8)) :: later)
  | _ => some []

/-- `ol--` on a size. -/
def decrement (size : Nat) : Nat := if size = 0 then 2 ^ 64 - 1 else size - 1

/-- `ol`: three octets for four symbols, less the padding. The byte before the text is what
`src[len - 1]` reads when it is empty. -/
def outLen (before : UInt8) (src : Bytes) : Nat :=
  let full := src.length / 4 * 3
  let last := if src.getLast?.getD before = padSymbol then decrement full else full
  if 1 < src.length ∧ src[src.length - 2]? = some padSymbol then decrement last else last

/-- `base64_decode`: the octets it writes, with their number as its output length. -/
def decode (before : UInt8) (src : Bytes) (outMax : Nat) : Option Bytes :=
  if src.length % 4 ≠ 0 then none
  else if outMax < outLen before src then none
  else (decodeGroups src).map (List.take (outLen before src))

/-! ## Symbols -/

/-- Masking keeps the low sextet. -/
private theorem symbol_mod (value : Nat) : symbol value = symbol (value % 64) := by
  have mask : ∀ number : Nat, number &&& 0x3F = number % 64 :=
    fun number => Nat.and_two_pow_sub_one_eq_mod number 6
  simp only [symbol, mask, Nat.mod_mod]

set_option maxRecDepth 4000 in
/-- Every sextet has its own symbol, and none is the padding. -/
private theorem sextet_symbol_low : ∀ low < 64,
    sextet (symbol low) = some low ∧ symbol low ≠ padSymbol := by
  decide

/-- A printed symbol reads as the sextet it was printed for. -/
@[simp]
theorem sextet_symbol (value : Nat) : sextet (symbol value) = some (value % 64) := by
  rw [symbol_mod]
  exact (sextet_symbol_low _ (Nat.mod_lt _ (by decide))).1

/-- A printed symbol is not padding. -/
@[simp]
theorem symbol_ne_padSymbol (value : Nat) : symbol value ≠ padSymbol := by
  rw [symbol_mod]
  exact (sextet_symbol_low _ (Nat.mod_lt _ (by decide))).2

/-- Padding reads as zero. -/
@[simp]
theorem sextet_padSymbol : sextet padSymbol = some 0 := rfl

/-- The padded text of the last octets. -/
def encodeTail : Bytes → Bytes
  | [a] => (encodeTriple a 0 0).take 2 ++ [padSymbol, padSymbol]
  | [a, b] => (encodeTriple a b 0).take 3 ++ [padSymbol]
  | _ => []

/-! ## Groups -/

/-- The octets of a triple are recovered from the sum of its sextets. -/
private theorem triple_octets {a b c : UInt8} {triple sum : Nat}
    (packed : triple = a.toNat * 2 ^ 16 + b.toNat * 2 ^ 8 + c.toNat)
    (summed : sum = triple / 2 ^ 18 % 64 * 2 ^ 18 + triple / 2 ^ 12 % 64 * 2 ^ 12 +
      triple / 2 ^ 6 % 64 * 2 ^ 6 + triple % 64) :
    UInt8.ofNat (sum / 2 ^ 16) = a ∧ UInt8.ofNat (sum / 2 ^ 8) = b ∧ UInt8.ofNat sum = c := by
  have first := a.toNat_lt
  have second := b.toNat_lt
  have third := c.toNat_lt
  simp only [← UInt8.toNat_inj, UInt8.toNat_ofNat']
  omega

/-- Four symbols that read as the sextets of a triple decode to its octets. -/
private theorem decodeGroups_four {s t u v a b c : UInt8} {triple : Nat}
    (packed : triple = a.toNat * 2 ^ 16 + b.toNat * 2 ^ 8 + c.toNat)
    (first : sextet s = some (triple / 2 ^ 18 % 64))
    (second : sextet t = some (triple / 2 ^ 12 % 64))
    (third : sextet u = some (triple / 2 ^ 6 % 64))
    (fourth : sextet v = some (triple % 64)) (rest : Bytes) :
    decodeGroups (s :: t :: u :: v :: rest) =
      (decodeGroups rest).map fun later => a :: b :: c :: later := by
  obtain ⟨high, middle, low⟩ := triple_octets packed rfl
  simp only [decodeGroups, first, second, third, fourth, Option.bind_eq_bind, Option.bind_some,
    Nat.shiftLeft_eq, Nat.shiftRight_eq_div_pow, Nat.reduceMul, Nat.pow_zero, Nat.div_one,
    high, middle, low]
  cases decodeGroups rest <;> rfl

/-- The symbols of a triple, with the packed octets as a sum. -/
private theorem encodeTriple_symbols (a b c : UInt8) :
    ∃ triple, triple = a.toNat * 2 ^ 16 + b.toNat * 2 ^ 8 + c.toNat ∧
      encodeTriple a b c =
        [symbol (triple / 2 ^ 18), symbol (triple / 2 ^ 12), symbol (triple / 2 ^ 6),
          symbol triple] := by
  refine ⟨_, rfl, ?_⟩
  simp only [encodeTriple, Nat.shiftLeft_eq, Nat.shiftRight_eq_div_pow, Nat.reduceMul,
    Nat.pow_zero, Nat.div_one]

/-- One encoded triple decodes to its octets. -/
theorem decodeGroups_encodeTriple (a b c : UInt8) (rest : Bytes) :
    decodeGroups (encodeTriple a b c ++ rest) =
      (decodeGroups rest).map fun later => a :: b :: c :: later := by
  obtain ⟨triple, packed, same⟩ := encodeTriple_symbols a b c
  rw [same]
  exact decodeGroups_four packed (by simp) (by simp) (by simp) (by simp) rest

/-- The padded tail decodes to its octets and zeros. -/
theorem decodeGroups_encodeTail {tail : Bytes} (short : tail.length < 3) :
    ∃ zeros, decodeGroups (encodeTail tail) = some (tail ++ zeros) := by
  match tail, short with
  | [], _ => exact ⟨[], rfl⟩
  | [a], _ =>
    obtain ⟨triple, packed, same⟩ := encodeTriple_symbols a 0 0
    refine ⟨[0, 0], ?_⟩
    have clear : triple / 2 ^ 6 % 64 = 0 ∧ triple % 64 = 0 := by
      simp only [UInt8.toNat_zero] at packed
      omega
    simp only [encodeTail, same, List.take_succ_cons, List.take_zero, List.cons_append,
      List.nil_append]
    rw [decodeGroups_four packed (by simp) (by simp) (by rw [clear.1]; rfl)
      (by rw [clear.2]; rfl)]
    rfl
  | [a, b], _ =>
    obtain ⟨triple, packed, same⟩ := encodeTriple_symbols a b 0
    refine ⟨[0], ?_⟩
    have clear : triple % 64 = 0 := by
      simp only [UInt8.toNat_zero] at packed
      omega
    simp only [encodeTail, same, List.take_succ_cons, List.take_zero, List.cons_append,
      List.nil_append]
    rw [decodeGroups_four packed (by simp) (by simp) (by simp) (by simp [clear])]
    rfl

/-- Whole triples come first, and what follows them is decoded after them. -/
theorem decodeGroups_encodeGroups (front : Bytes) (whole : front.length % 3 = 0) (rest : Bytes) :
    decodeGroups (encodeGroups front ++ rest) = (decodeGroups rest).map (front ++ ·) := by
  induction front using encodeGroups.induct with
  | case1 => simp [encodeGroups]
  | case2 a => simp at whole
  | case3 a b => simp at whole
  | case4 a b c front ih =>
    have whole : front.length % 3 = 0 := by
      simp only [List.length_cons] at whole
      omega
    rw [encodeGroups, List.append_assoc, decodeGroups_encodeTriple, ih whole, Option.map_map]
    rfl

/-- Whole triples are encoded apart from what follows them. -/
theorem encodeGroups_append (front : Bytes) (whole : front.length % 3 = 0) (rest : Bytes) :
    encodeGroups (front ++ rest) = encodeGroups front ++ encodeGroups rest := by
  induction front using encodeGroups.induct with
  | case1 => simp [encodeGroups]
  | case2 a => simp at whole
  | case3 a b => simp at whole
  | case4 a b c front ih =>
    have whole : front.length % 3 = 0 := by
      simp only [List.length_cons] at whole
      omega
    simp [encodeGroups, ih whole]

/-- Every three octets give four symbols. -/
theorem length_encodeGroups (src : Bytes) :
    (encodeGroups src).length = 4 * ((src.length + 2) / 3) := by
  induction src using encodeGroups.induct with
  | case1 => rfl
  | case2 a => simp [encodeGroups, encodeTriple]
  | case3 a b => simp [encodeGroups, encodeTriple]
  | case4 a b c src ih =>
    simp only [encodeGroups, encodeTriple, List.length_append, List.length_cons, List.length_nil,
      ih]
    omega

/-! ## Round trip -/

/-- Padding overwrites the symbols of the missing octets. -/
theorem encode_split {front tail : Bytes} (whole : front.length % 3 = 0)
    (short : tail.length < 3) {outMax : Nat}
    (room : 4 * (((front ++ tail).length + 2) / 3) < outMax) :
    encode (front ++ tail) outMax = some (encodeGroups front ++ encodeTail tail) := by
  have base := length_encodeGroups front
  rw [encode, if_neg (by omega), encodeGroups_append front whole]
  match tail, short with
  | [], _ => simp [whole, encodeGroups, encodeTail]
  | [a], _ =>
    have count : (3 - (front ++ [a]).length % 3) % 3 = 2 := by simp; omega
    have size : 4 * (((front ++ [a]).length + 2) / 3) = (encodeGroups front).length + 4 := by
      simp only [List.length_append, List.length_singleton]
      omega
    simp only [count, size]
    simp [List.range_succ, encodeGroups, encodeTail, encodeTriple]
  | [a, b], _ =>
    have count : (3 - (front ++ [a, b]).length % 3) % 3 = 1 := by simp; omega
    have size : 4 * (((front ++ [a, b]).length + 2) / 3) = (encodeGroups front).length + 4 := by
      simp only [List.length_append, List.length_cons, List.length_nil]
      omega
    simp only [count, size]
    simp [List.range_succ, encodeGroups, encodeTail, encodeTriple]

/-- Any octets are whole triples and a short tail. -/
private theorem exists_split (src : Bytes) :
    ∃ front tail, src = front ++ tail ∧ front.length % 3 = 0 ∧ tail.length < 3 := by
  refine ⟨src.take (src.length / 3 * 3), src.drop (src.length / 3 * 3), by simp, ?_, ?_⟩
  · rw [List.length_take]
    omega
  · rw [List.length_drop]
    omega

/-- Unpadded groups hold printed symbols only. -/
theorem exists_symbol_of_mem {src : Bytes} {byte : UInt8} (member : byte ∈ encodeGroups src) :
    ∃ value, byte = symbol value := by
  have triple : ∀ a b c : UInt8, byte ∈ encodeTriple a b c → ∃ value, byte = symbol value := by
    intro a b c inside
    simp only [encodeTriple, List.mem_cons, List.not_mem_nil, or_false] at inside
    rcases inside with rfl | rfl | rfl | rfl <;> exact ⟨_, rfl⟩
  induction src using encodeGroups.induct with
  | case1 => simp [encodeGroups] at member
  | case2 a => exact triple _ _ _ member
  | case3 a b => exact triple _ _ _ member
  | case4 a b c src ih =>
    rcases List.mem_append.mp member with head | later
    · exact triple _ _ _ head
    · exact ih later

/-- The output length of a nonempty text, from the last two symbols. -/
private theorem outLen_of_last {text : Bytes} (last second before : UInt8)
    (large : 4 ≤ text.length) (ending : text.getLast? = some last)
    (previous : text[text.length - 2]? = some second) :
    outLen before text = text.length / 4 * 3 - (if last = padSymbol then 1 else 0) -
      (if second = padSymbol then 1 else 0) := by
  have long : 1 < text.length := by omega
  have positive : 3 ≤ text.length / 4 * 3 := by omega
  simp only [outLen, ending, previous, long, true_and, Option.getD_some, Option.some.injEq,
    decrement]
  generalize text.length / 4 * 3 = full at positive
  by_cases first : last = padSymbol <;> by_cases next : second = padSymbol <;>
    simp only [first, next, ↓reduceIte, Nat.sub_zero] <;> grind

/-- The padded text has the length of its octets as output length. -/
private theorem outLen_split {front tail : Bytes} (whole : front.length % 3 = 0)
    (short : tail.length < 3) {before : UInt8} (guarded : front ++ tail = [] → before ≠ padSymbol) :
    outLen before (encodeGroups front ++ encodeTail tail) = (front ++ tail).length := by
  have base := length_encodeGroups front
  match tail, short with
  | [], _ =>
    by_cases empty : front = []
    · subst empty
      simp [outLen, encodeGroups, encodeTail, guarded]
    have large : 0 < front.length := List.length_pos_iff.mpr empty
    have long : 4 ≤ (encodeGroups front).length := by omega
    have full : encodeGroups front ≠ [] := List.ne_nil_of_length_pos (by omega)
    have unpadded : ∀ byte ∈ encodeGroups front, byte ≠ padSymbol := by
      intro byte member
      obtain ⟨value, rfl⟩ := exists_symbol_of_mem member
      exact symbol_ne_padSymbol value
    obtain ⟨second, previous⟩ :
        ∃ second, (encodeGroups front)[(encodeGroups front).length - 2]? = some second :=
      ⟨_, List.getElem?_eq_getElem (by omega)⟩
    have size := outLen_of_last _ _ before long (List.getLast?_eq_some_getLast full) previous
    rw [if_neg (unpadded _ (List.getLast_mem full)),
      if_neg (unpadded _ (List.mem_of_getElem? previous))] at size
    simp only [encodeTail, List.append_nil, size]
    omega
  | [a], _ =>
    have size :
        (encodeGroups front ++ encodeTail [a]).length = (encodeGroups front).length + 4 := by
      simp [encodeTail, encodeTriple]
    rw [outLen_of_last padSymbol padSymbol before (by omega)
      (by simp [encodeTail]) (by rw [size]; simp [encodeTail, encodeTriple]), size]
    simp only [↓reduceIte, List.length_append, List.length_singleton]
    omega
  | [a, b], _ =>
    have size : (encodeGroups front ++ encodeTail [a, b]).length =
        (encodeGroups front).length + 4 := by
      simp [encodeTail, encodeTriple]
    obtain ⟨triple, packed, same⟩ := encodeTriple_symbols a b 0
    rw [outLen_of_last padSymbol (symbol (triple / 2 ^ 6)) before (by omega)
      (by simp [encodeTail]) (by rw [size]; simp [encodeTail, same]), size]
    simp only [↓reduceIte, symbol_ne_padSymbol, List.length_append, List.length_cons,
      List.length_nil]
    omega

/-- An encoding is that of whole triples and a padded tail. -/
private theorem exists_encode_split {src text : Bytes} {outMax : Nat}
    (encoded : encode src outMax = some text) :
    ∃ front tail, src = front ++ tail ∧ front.length % 3 = 0 ∧ tail.length < 3 ∧
      text = encodeGroups front ++ encodeTail tail := by
  obtain ⟨front, tail, rfl, whole, short⟩ := exists_split src
  have enough : 4 * (((front ++ tail).length + 2) / 3) < outMax := by
    by_contra full
    rw [encode, if_pos (by omega)] at encoded
    contradiction
  rw [encode_split whole short enough, Option.some.injEq] at encoded
  exact ⟨front, tail, rfl, whole, short, encoded.symm⟩

/-- The output length of an encoding is the number of octets it was made from. -/
theorem outLen_encode {src text : Bytes} {outMax : Nat} {before : UInt8}
    (guarded : src = [] → before ≠ padSymbol) (encoded : encode src outMax = some text) :
    outLen before text = src.length := by
  obtain ⟨front, tail, rfl, whole, short, rfl⟩ := exists_encode_split encoded
  exact outLen_split whole short guarded

/-- An encoding decodes to the octets it was made from; only the empty one depends on the byte
before the text. -/
theorem decode_encode {src text : Bytes} {encodeMax decodeMax : Nat} {before : UInt8}
    (guarded : src = [] → before ≠ padSymbol) (encoded : encode src encodeMax = some text)
    (room : src.length ≤ decodeMax) :
    decode before text decodeMax = some src := by
  have size := outLen_encode guarded encoded
  obtain ⟨front, tail, rfl, whole, short, rfl⟩ := exists_encode_split encoded
  obtain ⟨zeros, decoded⟩ := decodeGroups_encodeTail short
  have octets := decodeGroups_encodeGroups front whole (encodeTail tail)
  rw [decoded, Option.map_some] at octets
  have grouped : (encodeGroups front ++ encodeTail tail).length % 4 = 0 := by
    have base := length_encodeGroups front
    match tail, short with
    | [], _ => simp only [encodeTail, List.length_append, List.length_nil]; omega
    | [a], _ | [a, b], _ =>
      simp only [encodeTail, encodeTriple, List.length_append]
      simp
      omega
  rw [decode, if_neg (by omega), if_neg (by omega), octets, size, ← List.append_assoc,
    Option.map_some, List.take_left]

/-- Every symbol of an encoding is one the decoder reads. -/
theorem sextet_of_mem_encode {src text : Bytes} {outMax : Nat} {byte : UInt8}
    (encoded : encode src outMax = some text) (member : byte ∈ text) :
    (sextet byte).isSome = true := by
  have pads : ∀ (positions : List Nat) (out : Bytes) (size : Nat),
      byte ∈ positions.foldl (fun out pad => out.set (size - 1 - pad) padSymbol) out →
        byte ∈ out ∨ byte = padSymbol := by
    intro positions
    induction positions with
    | nil => exact fun _ _ inside => .inl inside
    | cons pad positions ih =>
      intro out size inside
      rcases ih _ _ inside with inside | same
      · exact List.mem_or_eq_of_mem_set inside
      · exact .inr same
  simp only [encode] at encoded
  split at encoded
  · contradiction
  · cases encoded
    rcases pads _ _ _ member with inside | rfl
    · obtain ⟨value, rfl⟩ := exists_symbol_of_mem inside
      simp
    · rfl

/-- No byte below the plus sign is a symbol. -/
theorem not_mem_encode {src text : Bytes} {outMax : Nat} {byte : UInt8}
    (encoded : encode src outMax = some text) (small : byte < 43) : byte ∉ text := by
  intro member
  have readable := sextet_of_mem_encode encoded member
  have none : sextet byte = Option.none := by
    simp only [UInt8.lt_iff_toNat_lt, UInt8.reduceToNat] at small
    simp only [sextet, b64Index, padSymbol, UInt8.le_iff_toNat_le, ← UInt8.toNat_inj,
      UInt8.reduceToNat, beq_iff_eq, Bool.and_eq_true, decide_eq_true_eq]
    repeat' rw [if_neg (by omega)]
  rw [none] at readable
  contradiction

/-- The encoding has four symbols for every three octets begun. -/
theorem length_encode {src text : Bytes} {outMax : Nat} (encoded : encode src outMax = some text) :
    text.length = 4 * ((src.length + 2) / 3) := by
  have pads : ∀ (positions : List Nat) (out : Bytes) (size : Nat),
      (positions.foldl (fun out pad => out.set (size - 1 - pad) padSymbol) out).length =
        out.length := by
    intro positions
    induction positions with
    | nil => exact fun _ _ => rfl
    | cons pad positions ih => exact fun out size => by simp [ih]
  simp only [encode] at encoded
  split at encoded
  · contradiction
  · cases encoded
    rw [pads, length_encodeGroups]

/-- A large enough buffer always takes the encoding. -/
theorem encode_isSome {src : Bytes} {outMax : Nat} (room : 4 * ((src.length + 2) / 3) < outMax) :
    ∃ text, encode src outMax = some text :=
  ⟨_, if_neg (by omega)⟩

end StreamPipeline.Store.Base64
