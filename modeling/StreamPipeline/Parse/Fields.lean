import StreamPipeline.Lib.Tokens

/-!
# The field list of regex mode

`log_regex_split_fields` allocates one name more than there are commas and fills the array with
the tokens of `strtok_r`, which never hands out an empty one. An empty field therefore shows
only as a token missing from the count. A name is kept as its offset in the argument.
-/

namespace StreamPipeline.Parse

open Tokens (stringAt strtokR)

/-- The separator of field names. -/
abbrev fieldComma : UInt8 := 44

/-- The delimiter set `","` of the two calls of `strtok_r`. -/
def isComma (byte : UInt8) : Bool := byte == fieldComma

/-- `log_t` as the field list fills it. -/
structure LogSchema where
  /-- `names`: the array of name offsets; absent for `NULL`. -/
  names : Option (List (Option Nat))
  /-- `values`: the array of captured values; absent for `NULL`. -/
  values : Option (List (Option CStr))
  /-- `count`. -/
  count : Nat

/-- What a call of `log_regex_split_fields` leaves behind. -/
structure SplitRun where
  /-- The returned status. -/
  status : Int
  /-- The block of the argument after the call. -/
  arg : Bytes
  /-- The output container. -/
  log : LogSchema

/-- `names[0..count)` as strings of the argument's block. -/
def SplitRun.fieldNames (run : SplitRun) : Option (List (Option Bytes)) :=
  run.log.names.map fun names =>
    (names.take run.log.count).map fun name => name.map (stringAt run.arg)

/-- The loop that counts the fields. -/
def countFields (arg : CStr) : Nat :=
  arg.bytes.foldl (fun count byte => if byte = fieldComma then count + 1 else count) 1

/-- A store into the allocated array; a store outside has no result. -/
def storeName (names : List (Option Nat)) (idx tok : Nat) : Option (List (Option Nat)) :=
  if idx < names.length then some (names.set idx (some tok)) else none

/-- Where the loop over the tokens ends. -/
structure NamesEnd where
  /-- The block of the argument. -/
  memory : Bytes
  /-- The array of names. -/
  names : List (Option Nat)
  /-- The number of names stored. -/
  idx : Nat
  /-- An empty token returned `-1` from inside the loop. -/
  early : Bool

/-- The loop over the tokens, at most `fuel` rounds of it. -/
def nameFields : Nat → Tokens.Answer → List (Option Nat) → Nat → Option NamesEnd
  | 0, _, _, _ => none
  | fuel + 1, answer, names, idx =>
    match answer.token with
    | none => some ⟨answer.memory, names, idx, false⟩
    | some tok =>
      if stringAt answer.memory tok = [] then some ⟨answer.memory, names, idx, true⟩
      else
        match storeName names idx tok with
        | none => none
        | some names => nameFields fuel (strtokR isComma answer.memory answer.save) names (idx + 1)

/-- `log_regex_split_fields`; the flags say which of its two allocations succeed. It has no
result when a store goes outside the array of names or the loop does not end. -/
def logRegexSplitFields (namesFit valuesFit : Bool) (arg : CStr) (log : LogSchema) :
    Option SplitRun :=
  let count := countFields arg
  let block := arg.bytes ++ [0]
  if !namesFit || !valuesFit then
    some ⟨-1, block, { log with names := none, values := none }⟩
  else
    (nameFields (block.length + 1) (strtokR isComma block 0) (List.replicate count none) 0).map
      fun fin =>
        let filled := { log with
          names := some fin.names, values := some (List.replicate count none) }
        if fin.early then ⟨-1, fin.memory, filled⟩
        else ⟨if fin.idx = count then 0 else -1, fin.memory, { filled with count := fin.idx }⟩

/-- The counting loop finds one field more than there are commas. -/
theorem countFields_eq (arg : CStr) : countFields arg = arg.bytes.count fieldComma + 1 := by
  have counted : ∀ (bytes : Bytes) (start : Nat),
      bytes.foldl (fun count byte => if byte = fieldComma then count + 1 else count) start =
        bytes.count fieldComma + start := by
    intro bytes
    induction bytes with
    | nil => simp
    | cons byte bytes ih =>
      intro start
      rw [List.foldl_cons, ih, List.count_cons]
      by_cases comma : byte = fieldComma
      · rw [if_pos comma, if_pos (beq_iff_eq.mpr comma)]
        omega
      · rw [if_neg comma, if_neg (by simpa using comma)]
        omega
  exact counted arg.bytes 1

/-- A store at the end of the names written so far takes the next free slot. -/
theorem storeName_next (written : List (Option Nat)) (room tok : Nat) :
    storeName (written ++ List.replicate (room + 1) none) written.length tok =
      some (written ++ [some tok] ++ List.replicate room none) := by
  have inside : written.length < (written ++ List.replicate (room + 1) none).length := by
    rw [List.length_append, List.length_replicate]
    omega
  rw [storeName, if_pos inside, List.set_append_right _ _ (Nat.le_refl _), Nat.sub_self]
  simp [List.replicate_succ]

/-- As long as there is a slot for every token, the loop stores them all in order. -/
theorem nameFields_yields {answer : Tokens.Answer} {offsets : List Nat} {after : Bytes}
    (yields : Tokens.Yields isComma answer offsets after) :
    ∀ {fuel room : Nat} {written : List (Option Nat)}, offsets.length ≤ room →
      offsets.length < fuel →
      nameFields fuel answer (written ++ List.replicate room none) written.length =
        some ⟨after, written ++ offsets.map some ++ List.replicate (room - offsets.length) none,
          written.length + offsets.length, false⟩ := by
  induction yields with
  | done memory save =>
    intro fuel room written _ enough
    cases fuel with
    | zero => contradiction
    | succ fuel => simp [nameFields]
  | @token memory after save offset later filled rest ih =>
    intro fuel room written fits enough
    rw [List.length_cons] at fits enough
    cases fuel with
    | zero => contradiction
    | succ fuel =>
      cases room with
      | zero => contradiction
      | succ room =>
        have stored := storeName_next written room offset
        have step := @ih fuel room (written ++ [some offset]) (by omega) (by omega)
        rw [List.length_append, List.length_singleton] at step
        simp only [nameFields, if_neg filled, stored, step]
        simp [Nat.add_assoc, Nat.add_comm 1]

/-- The fields between commas that are not empty. -/
def fieldTokens (arg : CStr) : List Bytes := Tokens.tokens isComma arg.bytes

/-- There are never more names than slots. -/
theorem length_fieldTokens_le (arg : CStr) : (fieldTokens arg).length ≤ countFields arg := by
  rw [countFields_eq]
  exact Tokens.length_tokens_le arg.bytes

/-- The names fill the array exactly when no piece between commas is empty. -/
theorem length_fieldTokens_eq_iff (arg : CStr) :
    (fieldTokens arg).length = countFields arg ↔
      ∀ piece ∈ arg.bytes.splitOn fieldComma, piece ≠ [] := by
  rw [countFields_eq]
  exact Tokens.length_tokens_eq_iff arg.bytes

/-- With both arrays allocated every token is stored, and its offset holds it at the end. -/
theorem logRegexSplitFields_fills (arg : CStr) (log : LogSchema) :
    ∃ (offsets : List Nat) (block : Bytes),
      offsets.map (stringAt block) = fieldTokens arg ∧
      logRegexSplitFields true true arg log =
        some ⟨if (fieldTokens arg).length = countFields arg then 0 else -1, block, {
          names := some (offsets.map some ++
            List.replicate (countFields arg - (fieldTokens arg).length) none)
          values := some (List.replicate (countFields arg) none)
          count := (fieldTokens arg).length }⟩ := by
  have ⟨offsets, block, yields, strings⟩ :=
    @Tokens.yields_tokens isComma [] arg.bytes arg.nulFree []
  refine ⟨offsets, block, strings, ?_⟩
  have length : offsets.length = (fieldTokens arg).length := by
    rw [fieldTokens, ← strings, List.length_map]
  have slots : offsets.length ≤ countFields arg := by
    rw [length]
    exact length_fieldTokens_le arg
  have enough : offsets.length < (arg.bytes ++ [0]).length + 1 := by
    have commas := List.count_le_length (a := fieldComma) (l := arg.bytes)
    rw [countFields_eq] at slots
    rw [List.length_append, List.length_singleton]
    omega
  have walked := @nameFields_yields _ offsets block yields _ (countFields arg) [] slots enough
  simp only [List.nil_append, List.length_nil, Nat.zero_add] at walked
  simp only [logRegexSplitFields, walked, length, Bool.not_true, Bool.or_self, Bool.false_eq_true,
    if_false, Option.map_some]

/-- The names stored are the tokens. -/
theorem take_names {offsets : List Nat} {block : Bytes} {arg : CStr}
    (strings : offsets.map (stringAt block) = fieldTokens arg) (free : Nat) :
    ((offsets.map some ++ List.replicate free none).take (fieldTokens arg).length).map
      (fun name : Option Nat => name.map (stringAt block)) = (fieldTokens arg).map some := by
  have length : (fieldTokens arg).length = (offsets.map some).length := by
    rw [← strings, List.length_map, List.length_map]
  rw [length, List.take_left, ← strings, List.map_map, List.map_map]
  rfl

/-- Whatever the argument, no name is stored outside the array. Without an allocation failure
the list is accepted exactly when its pieces between commas are all nonempty, and the names are
then the pieces in order, one more than there are commas. -/
theorem logRegexSplitFields_accepts (arg : CStr) (log : LogSchema) :
    (∀ namesFit valuesFit, (logRegexSplitFields namesFit valuesFit arg log).isSome) ∧
      ∃ run, logRegexSplitFields true true arg log = some run ∧
        (run.status = 0 ↔ arg.bytes.splitOn fieldComma ≠ [] ∧
          ∀ piece ∈ arg.bytes.splitOn fieldComma, piece ≠ []) ∧
        (run.status = 0 →
          run.fieldNames = some ((arg.bytes.splitOn fieldComma).map some) ∧
          run.log.count = arg.bytes.count fieldComma + 1) := by
  have ⟨offsets, block, strings, filled⟩ := logRegexSplitFields_fills arg log
  have accepts := length_fieldTokens_eq_iff arg
  have status : (if (fieldTokens arg).length = countFields arg then (0 : Int) else -1) = 0 ↔
      (fieldTokens arg).length = countFields arg := by
    by_cases all : (fieldTokens arg).length = countFields arg <;> simp [all]
  constructor
  · intro namesFit valuesFit
    cases namesFit with
    | false => rfl
    | true =>
      cases valuesFit with
      | false => rfl
      | true =>
        rw [filled]
        rfl
  · refine ⟨_, filled, ?_, ?_⟩
    · have some_piece := List.splitOn_ne_nil fieldComma arg.bytes
      exact status.trans (accepts.trans ⟨fun all => ⟨some_piece, all⟩, And.right⟩)
    · intro zero
      have all := status.mp zero
      have pieces : fieldTokens arg = arg.bytes.splitOn fieldComma :=
        Tokens.tokens_of_nonempty (accepts.mp all)
      constructor
      · rw [SplitRun.fieldNames, Option.map_some, take_names strings, pieces]
      · exact all.trans (countFields_eq arg)

/-- Three fields become three names. -/
example : (logRegexSplitFields true true (.ofBytes (ascii "ts,level,msg")) ⟨none, none, 0⟩).bind
    SplitRun.fieldNames = some [some (ascii "ts"), some (ascii "level"), some (ascii "msg")] := by
  decide

end StreamPipeline.Parse
