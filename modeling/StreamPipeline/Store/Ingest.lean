import StreamPipeline.Lib.DynamicBuffer
import StreamPipeline.Store.Walks

/-!
# Appending clips in memory

The default mode of `clip_store` parses every line three times, builds the key in a growing buffer
and appends a row. A tree of the parser is one block that `cJSON_Delete` gives back, and the local
array `path` a block of its scope. A line the parser has no memory for is skipped like a malformed
one, and a row there is no memory for ends the run.
-/

namespace StreamPipeline.Store.Memory

open Blocks Codec

/-- `dynamic_buffer_t`. -/
structure BufferFields where
  /-- `data`. -/
  data : Option Ptr := none
  /-- `len`. -/
  len : Nat := 0
  /-- `cap`. -/
  cap : Nat := 0

/-- The calls of the default mode that fail without an allocation. -/
structure OutputFaults where
  /-- `fseek`, by line. -/
  seek : Nat → Bool
  /-- `fprintf`, by line. -/
  print : Nat → Bool

/-- The content of a buffer, `data[0..len)`. -/
def bufferText (buffer : BufferFields) : Prog Block Bytes :=
  if buffer.data.isSome then do
    let bytes ← chars buffer.data
    pure (bytes.take buffer.len)
  else pure []

/-- The capacity `dynamic_buffer_reserve` doubles. -/
def firstCap (cap : Nat) : Nat := if cap = 0 then 128 else cap

/-- It is not zero. -/
theorem firstCap_pos (cap : Nat) : 0 < firstCap cap := by
  unfold firstCap
  split <;> omega

/-- Bytes stored from a place of a block on. -/
def overwriteAt (text : Option Ptr) (place : Nat) (bytes : Bytes) : Prog Block Unit := do
  let old ← chars text
  if place + bytes.length ≤ old.length then
    setChars text (old.take place ++ bytes ++ old.drop (place + bytes.length))
  else undefined

/-- The root of a tree. -/
def readTree : Option Ptr → Prog Block Item
  | some ⟨block, 0⟩ => do
    match ← load block with
    | .tree root => pure root
    | _ => undefined
  | _ => undefined

/-- `get_item`: the item of that name; none without a tree. -/
def getItem (root : Option Ptr) (key : CStr) : Prog Block (Option Item) :=
  if root.isSome then do
    match ← readTree root with
    | .object members => pure ((members.find? fun member => member.1 = key).map Prod.snd)
    | _ => pure none
  else pure none

/-- `jsonl_get_string` with its item. -/
def takeString (root : Option Ptr) (outSize : Nat) : Option Item → Prog Block (Option CStr)
  | some (.string valuestring) =>
    if outSize ≤ valuestring.bytes.length then do
      free root
      pure none
    else do
      free root
      pure (some valuestring)
  | _ => do
    free root
    pure none

/-- `jsonl_get_int64` with its item. -/
def takeInt64 (root : Option Ptr) : Option Item → Prog Block (Option Int64)
  | some (.number (.finite value)) =>
    if value < -jsonlMaxSafeInteger ∨ jsonlMaxSafeInteger < value then do
      free root
      pure none
    else
      let v := value.num.tdiv value.den
      if (v : Rat) ≠ value then do
        free root
        pure none
      else do
        free root
        pure (some (.ofInt v))
  | _ => do
    free root
    pure none

section Allocating

variable (fails : Nat → Bool) (junk : UInt8)

/-- `dynamic_buffer_reserve`: whether it returns `0`, and the buffer. -/
def bufferReserve (buffer : BufferFields) (extra : Nat) : Prog Block (Bool × BufferFields) :=
  let need := buffer.len + extra + 1
  if need ≤ buffer.cap then pure (true, buffer)
  else do
    let next := DynamicBuffer.doubled need (firstCap buffer.cap) (firstCap_pos buffer.cap)
    let old ← bufferText buffer
    match ← realloc fails buffer.data
        (.text (old ++ 0 :: List.replicate (next - (buffer.len + 1)) junk)) with
    | none => pure (false, buffer)
    | some data => pure (true, ⟨some data, buffer.len, next⟩)

/-- `dynamic_buffer_append_mem`: whether it returns `0`, and the buffer. -/
def bufferAppend (buffer : BufferFields) (bytes : Bytes) : Prog Block (Bool × BufferFields) := do
  let room ← bufferReserve fails junk buffer bytes.length
  if room.1 then
    overwriteAt room.2.data room.2.len (bytes ++ [0])
    pure (true, { room.2 with len := room.2.len + bytes.length })
  else pure (false, room.2)

/-- The key in a buffer: whether every append returns `0`, and the buffer. -/
def buildKey (session ts : CStr) : Prog Block (Bool × BufferFields) := do
  let first ← bufferAppend fails junk {} session.bytes
  if first.1 then
    let second ← bufferAppend fails junk first.2 (ascii ":")
    if second.1 then bufferAppend fails junk second.2 ts.bytes
    else pure second
  else pure first

variable (miniz : Miniz) (cjson : CJson)

/-- `cJSON_ParseWithOpts`: the root and the text at `parse_end`; none without a tree or memory. -/
def parseTree (text : CStr) : Prog Block (Option (Ptr × Bytes)) :=
  match cjson.parseWithOpts text with
  | none => pure none
  | some parsed => do
    match ← alloc fails (.tree parsed.1) with
    | none => pure none
    | some root => pure (some (root, parsed.2))

/-- `parse_object`: the root of the one object on the line; every other tree is deleted. -/
def parseObject (line : Option Ptr) : Prog Block (Option Ptr) := do
  let text ← readStr line
  match ← parseTree fails cjson text with
  | none => do
    free none
    pure none
  | some parsed => do
    match ← readTree (some parsed.1) with
    | .object _ =>
      if parsed.2.dropWhile isSpace = [] then pure (some parsed.1)
      else do
        free (some parsed.1)
        pure none
    | _ => do
      free (some parsed.1)
      pure none

/-- `jsonl_get_string` into a buffer. -/
def jsonlGetString (line : Option Ptr) (key : CStr) (outSize : Nat) :
    Prog Block (Option CStr) := do
  let root ← parseObject fails cjson line
  let item ← getItem root key
  takeString root outSize item

/-- `jsonl_get_int64`. -/
def jsonlGetInt64 (line : Option Ptr) (key : CStr) : Prog Block (Option Int64) := do
  let root ← parseObject fails cjson line
  let item ← getItem root key
  takeInt64 root item

/-- The fields of a line; none when one is missing. -/
def readClip (line : Option Ptr) : Prog Block (Option (CStr × CStr × CStr)) := do
  match ← jsonlGetString fails cjson line (.ofBytes (ascii "session_id")) 128 with
  | none => pure none
  | some session => do
    match ← jsonlGetInt64 fails cjson line (.ofBytes (ascii "ts")) with
    | none => pure none
    | some ts => do
      match ← jsonlGetString fails cjson line (.ofBytes (ascii "path")) pathMax with
      | none => pure none
      | some path => pure (some (session, CStr.ofWord ts, path))

/-- The row of a clip: the line it prints; none ends the run. -/
def storeClip (seek print : Bool) (expireAt : Int64) (session ts path : CStr) :
    Prog Block (Option Bytes) := do
  let field ← alloc (fun _ => false) (strBlock path)
  let key ← buildKey fails junk session ts
  if key.1 then
    let row ← appendDbRow fails junk miniz seek print
      { key := key.2.data, value := field, expireAt := expireAt }
    free key.2.data
    free field
    pure row
  else
    free key.2.data
    free field
    pure none

/-- `MODE_APPEND` from a line on: the status and what it writes. -/
def appendClips (out : OutputFaults) (ttl : Int64) (rowNow : Nat → Int64) :
    Nat → List Bytes → Option Ptr → Prog Block (Nat × Bytes)
  | _, [], line => do
    let got ← getline fails line []
    free got.2
    pure (0, [])
  | number, text :: rest, line => do
    let got ← getline fails line text
    if got.1 then
      match ← readClip fails cjson got.2 with
      | none => appendClips out ttl rowNow (number + 1) rest got.2
      | some clip => do
        match ← storeClip fails junk miniz (out.seek number) (out.print number)
            (expiration ttl (rowNow number)) clip.1 clip.2.1 clip.2.2 with
        | none => do
          free got.2
          pure (1, [])
        | some row => do
          let later ← appendClips out ttl rowNow (number + 1) rest got.2
          pure (later.1, row ++ later.2)
    else
      free got.2
      pure (0, [])

end Allocating

/-! ## The key -/

/-- A buffer that holds a text in its block. -/
def Holds (buffer : BufferFields) (own : Cells) (text : Bytes) : Prop :=
  (buffer = {} ∧ own = 0 ∧ text = []) ∨
    ∃ block rest, buffer = ⟨some ⟨block, 0⟩, text.length, (text ++ 0 :: rest).length⟩ ∧
      own = {(block, Block.text (text ++ 0 :: rest))}

/-- A buffer is freed. -/
theorem Holds.freed {buffer : BufferFields} {own : Cells} {text : Bytes}
    (holds : Holds buffer own text) : Leaves (free buffer.data) own 0 := by
  rcases holds with ⟨rfl, rfl, rfl⟩ | ⟨block, rest, rfl, rfl⟩
  · exact leaves_free_null
  · exact leaves_free block _

/-- The content of a buffer. -/
theorem Holds.returns_bufferText {buffer : BufferFields} {own : Cells} {text : Bytes}
    (holds : Holds buffer own text) : Returns (bufferText buffer) own text := by
  rcases holds with ⟨rfl, rfl, rfl⟩ | ⟨block, rest, rfl, rfl⟩
  · exact .pure ⟨rfl, rfl⟩
  · have member : (block, Block.text (text ++ 0 :: rest)) ∈
        ({(block, .text (text ++ 0 :: rest))} : Cells) := by simp
    have read : Returns (chars (some ⟨block, 0⟩)) {(block, .text (text ++ 0 :: rest))}
        (text ++ 0 :: rest) := (returns_load member).bind (.pure ⟨rfl, rfl⟩)
    apply read.bind
    exact .pure ⟨by simp, rfl⟩

/-- A reserved buffer has room, or a call fails and it stays. -/
theorem Holds.meets_bufferReserve (fails : Nat → Bool) (junk : UInt8) {buffer : BufferFields}
    {own : Cells} {text : Bytes} (holds : Holds buffer own text) (extra : Nat) :
    Meets (bufferReserve fails junk buffer extra) own fun result left =>
      (result = (false, buffer) ∧ left = own ∧ ∃ call, fails call = true) ∨
        ∃ block rest, extra ≤ rest.length ∧
          result = (true, ⟨some ⟨block, 0⟩, text.length, (text ++ 0 :: rest).length⟩) ∧
          left = {(block, Block.text (text ++ 0 :: rest))} := by
  have len : buffer.len = text.length := by
    rcases holds with ⟨rfl, rfl, rfl⟩ | ⟨block, rest, rfl, rfl⟩ <;> rfl
  unfold bufferReserve
  by_cases room : buffer.len + extra + 1 ≤ buffer.cap
  · rw [if_pos room]
    rcases holds with ⟨rfl, rfl, rfl⟩ | ⟨block, rest, rfl, rfl⟩
    · exact absurd room (by simp)
    · refine .pure (.inr ⟨block, rest, ?_, rfl, rfl⟩)
      simp only [List.length_append, List.length_cons] at room
      omega
  · rw [if_neg room]
    have enough := DynamicBuffer.le_doubled (buffer.len + extra + 1) _ (firstCap_pos buffer.cap)
    generalize DynamicBuffer.doubled (buffer.len + extra + 1) (firstCap buffer.cap) _ = next
      at enough
    apply holds.returns_bufferText.bind
    apply (meets_realloc fails _ holds.freed).andThen
    rintro result left (⟨rfl, rfl, failed⟩ | ⟨fresh, rfl, rfl⟩)
    · exact .pure (.inl ⟨rfl, rfl, failed⟩)
    · refine .pure (.inr ⟨fresh, List.replicate (next - (buffer.len + 1)) junk, ?_, ?_, rfl⟩)
      · rw [List.length_replicate]
        omega
      · have size : next = (text ++ 0 :: List.replicate (next - (buffer.len + 1)) junk).length := by
          rw [List.length_append, List.length_cons, List.length_replicate]
          omega
        rw [← size, ← len]

/-- Bytes behind the content of a block. -/
theorem leaves_overwriteAt (block : Nat) {text bytes rest : Bytes}
    (fits : bytes.length ≤ rest.length) :
    Leaves (overwriteAt (some ⟨block, 0⟩) text.length bytes) {(block, .text (text ++ rest))}
      {(block, .text (text ++ bytes ++ rest.drop bytes.length))} := by
  have member : (block, Block.text (text ++ rest)) ∈
      ({(block, .text (text ++ rest))} : Cells) := by simp
  have chars : Returns (chars (some ⟨block, 0⟩)) {(block, .text (text ++ rest))} (text ++ rest) :=
    (returns_load member).bind (.pure ⟨rfl, rfl⟩)
  have inside : text.length + bytes.length ≤ (text ++ rest).length := by
    rw [List.length_append]
    omega
  have front : (text ++ rest).take text.length = text := by simp
  have behind : (text ++ rest).drop (text.length + bytes.length) = rest.drop bytes.length := by
    rw [List.drop_append]
    simp
  apply chars.bind
  show Leaves (if text.length + bytes.length ≤ (text ++ rest).length then _ else _) _ _
  rw [if_pos inside, front, behind]
  exact leaves_store _ _ _

/-- An append lengthens the content, or a call fails and it stays. -/
theorem Holds.meets_bufferAppend (fails : Nat → Bool) (junk : UInt8) {buffer : BufferFields}
    {own : Cells} {text : Bytes} (holds : Holds buffer own text) (bytes : Bytes) :
    Meets (bufferAppend fails junk buffer bytes) own fun result left =>
      (result.1 = false ∧ Holds result.2 left text ∧ ∃ call, fails call = true) ∨
        (result.1 = true ∧ Holds result.2 left (text ++ bytes) ∧ result.2.data.isSome) := by
  apply (holds.meets_bufferReserve fails junk bytes.length).andThen
  rintro result left (⟨rfl, rfl, failed⟩ | ⟨block, rest, room, rfl, rfl⟩)
  · exact .pure (.inl ⟨rfl, holds, failed⟩)
  · have fits : (bytes ++ [0]).length ≤ (0 :: rest).length := by
      rw [List.length_append, List.length_cons]
      exact Nat.succ_le_succ room
    apply (leaves_overwriteAt block fits).bind (add_zero _).symm
    rw [add_zero]
    have shape : text ++ (bytes ++ [0]) ++ (0 :: rest).drop (bytes ++ [0]).length =
        (text ++ bytes) ++ 0 :: rest.drop bytes.length := by
      rw [List.length_append]
      simp
    have size : (text ++ 0 :: rest).length =
        ((text ++ bytes) ++ 0 :: rest.drop bytes.length).length := by
      simp only [List.length_append, List.length_cons, List.length_drop]
      omega
    rw [shape]
    have longer : (text ++ bytes).length = text.length + bytes.length := List.length_append
    refine .pure (.inr ⟨rfl, .inr ⟨block, rest.drop bytes.length, ?_, rfl⟩, rfl⟩)
    rw [← size, longer]

/-- The string in a buffer. -/
theorem Holds.points {buffer : BufferFields} {own : Cells} {text : Bytes}
    (holds : Holds buffer own text) (filled : buffer.data.isSome = true) :
    Points own buffer.data (.ofBytes text) := by
  rcases holds with ⟨rfl, -, -⟩ | ⟨block, rest, rfl, rfl⟩
  · contradiction
  · exact ⟨block, 0, text ++ 0 :: rest, rfl, by simp, by simp, ofBytes_terminated text rest⟩

/-- The key is built, or a call fails; its buffer can be freed. -/
theorem meets_buildKey (fails : Nat → Bool) (junk : UInt8) (session ts : CStr) :
    Meets (buildKey fails junk session ts) 0 fun result left =>
      Leaves (free result.2.data) left 0 ∧
        ((result.1 = false ∧ ∃ call, fails call = true) ∨
          (result.1 = true ∧
            Points left result.2.data (session ++ CStr.ofBytes (ascii ":") ++ ts))) := by
  have start : Holds {} 0 [] := .inl ⟨rfl, rfl, rfl⟩
  apply (start.meets_bufferAppend fails junk session.bytes).andThen
  rintro ⟨done, buffer⟩ left (⟨rfl, holds, failed⟩ | ⟨rfl, holds, -⟩)
  · exact .pure ⟨holds.freed, .inl ⟨rfl, failed⟩⟩
  rw [if_pos rfl]
  apply (holds.meets_bufferAppend fails junk (ascii ":")).andThen
  rintro ⟨done, buffer⟩ left (⟨rfl, holds, failed⟩ | ⟨rfl, holds, -⟩)
  · exact .pure ⟨holds.freed, .inl ⟨rfl, failed⟩⟩
  rw [if_pos rfl]
  apply (holds.meets_bufferAppend fails junk ts.bytes).weaken
  rintro ⟨done, buffer⟩ left (⟨rfl, holds, failed⟩ | ⟨rfl, holds, filled⟩)
  · exact ⟨holds.freed, .inl ⟨rfl, failed⟩⟩
  · have key : CStr.ofBytes ([] ++ session.bytes ++ ascii ":" ++ ts.bytes) =
        session ++ CStr.ofBytes (ascii ":") ++ ts :=
      (session ++ CStr.ofBytes (ascii ":") ++ ts).ofBytes_bytes
    exact ⟨holds.freed, .inr ⟨rfl, key ▸ holds.points filled⟩⟩

/-! ## One line -/

variable {fails : Nat → Bool} {junk : UInt8} {miniz : Miniz} {cjson : CJson} {own : Cells}

/-- The root of a tree in its block. -/
theorem returns_readTree {block : Nat} {item : Item} (member : (block, Block.tree item) ∈ own) :
    Returns (readTree (some ⟨block, 0⟩)) own item :=
  (returns_load member).bind (.pure ⟨rfl, rfl⟩)

/-- An object in its block, or no tree. -/
def Rooted (tree : Cells) (root : Option Ptr) : Option (List (CStr × Item)) → Prop
  | none => root = none ∧ tree = 0
  | some members => ∃ block, root = some ⟨block, 0⟩ ∧ tree = {(block, .tree (.object members))}

variable {tree : Cells} {root : Option Ptr} {members : Option (List (CStr × Item))}

/-- It is deleted. -/
theorem Rooted.freed (rooted : Rooted tree root members) : Leaves (free root) tree 0 := by
  cases members with
  | none =>
    obtain ⟨rfl, rfl⟩ := rooted
    exact leaves_free_null
  | some members =>
    obtain ⟨block, rfl, rfl⟩ := rooted
    exact leaves_free block _

/-- An item is looked up in its members. -/
theorem Rooted.returns_getItem (rooted : Rooted tree root members) (key : CStr) :
    Returns (getItem root key) (tree + own)
      (members.bind fun members =>
        (members.find? fun member => member.1 = key).map Prod.snd) := by
  cases members with
  | none =>
    obtain ⟨rfl, rfl⟩ := rooted
    exact .pure ⟨rfl, rfl⟩
  | some members =>
    obtain ⟨block, rfl, rfl⟩ := rooted
    have member : (block, Block.tree (.object members)) ∈
        ({(block, .tree (.object members))} : Cells) + own := by simp
    apply (returns_readTree member).bind
    exact .pure ⟨rfl, rfl⟩

/-- A tree is deleted on a path that ends with a result. -/
theorem meets_deleted {α : Type} (freed : Leaves (free root) tree 0) (answer : α) :
    Meets (do
        free root
        pure answer)
      (tree + own) fun result left => left = own ∧ result = answer := by
  apply freed.bind rfl
  exact .pure ⟨zero_add own, rfl⟩

/-- A text is parsed into a block, or it has no tree, or there is no memory for it. -/
theorem meets_parseTree (text : CStr) :
    Meets (parseTree fails cjson text) 0 fun result left =>
      (result = none ∧ left = 0 ∧
        (cjson.parseWithOpts text = none ∨ ∃ call, fails call = true)) ∨
      ∃ block item behind, result = some (⟨block, 0⟩, behind) ∧
        cjson.parseWithOpts text = some (item, behind) ∧ left = {(block, .tree item)} := by
  unfold parseTree
  cases parsed : cjson.parseWithOpts text with
  | none => exact .pure (.inl ⟨rfl, rfl, .inl rfl⟩)
  | some found =>
    apply (meets_alloc fails (Block.tree found.1)).andThen
    rintro result left (⟨rfl, rfl, failed⟩ | ⟨block, rfl, rfl⟩)
    · exact .pure (.inl ⟨rfl, rfl, .inr failed⟩)
    · exact .pure (.inr ⟨block, found.1, found.2, rfl, rfl, rfl⟩)

/-- What `parse_object` returns for a line whose object has these members: its root in a block, and
nothing in memory without an object. -/
theorem meets_parseObject {line : Option Ptr} {text : CStr} (points : Points own line text) :
    Meets (parseObject fails cjson line) own fun result left =>
      ∃ (tree : Cells) (members : Option (List (CStr × Item))), left = tree + own ∧
        Rooted tree result members ∧
        (members = Codec.parseObject cjson text ∨
          members = none ∧ ∃ call, fails call = true) := by
  apply (returns_readStr points).bind
  apply (meets_parseTree text).bind (zero_add own).symm
  rintro result left (⟨rfl, rfl, treeless | failed⟩ | ⟨block, item, behind, rfl, parsed, rfl⟩)
  · apply leaves_free_null.bind rfl
    refine .pure ⟨0, none, by rw [zero_add], ⟨rfl, rfl⟩, .inl ?_⟩
    rw [Codec.parseObject, treeless]
  · apply leaves_free_null.bind rfl
    exact .pure ⟨0, none, by rw [zero_add], ⟨rfl, rfl⟩, .inr ⟨rfl, failed⟩⟩
  have member : (block, Block.tree item) ∈ ({(block, .tree item)} : Cells) + own := by simp
  have deleted : Codec.parseObject cjson text = none →
      Meets (do
          free (some ⟨block, 0⟩)
          pure none)
        ({(block, .tree item)} + own) fun result left =>
          ∃ (tree : Cells) (members : Option (List (CStr × Item))), left = tree + own ∧
            Rooted tree result members ∧
            (members = Codec.parseObject cjson text ∨
              members = none ∧ ∃ call, fails call = true) := by
    intro refused
    apply (leaves_free block _).bind rfl
    exact .pure ⟨0, none, rfl, ⟨rfl, rfl⟩, .inl refused.symm⟩
  apply (returns_readTree member).bind
  cases item with
  | object members =>
    dsimp only
    by_cases alone : behind.dropWhile isSpace = []
    · rw [if_pos alone]
      refine .pure ⟨_, some members, rfl, ⟨block, rfl, rfl⟩, .inl ?_⟩
      simp [Codec.parseObject, parsed, alone]
    · rw [if_neg alone]
      exact deleted (by simp [Codec.parseObject, parsed, alone])
  | null => exact deleted (by simp [Codec.parseObject, parsed])
  | bool value => exact deleted (by simp [Codec.parseObject, parsed])
  | number value => exact deleted (by simp [Codec.parseObject, parsed])
  | string value => exact deleted (by simp [Codec.parseObject, parsed])
  | array items => exact deleted (by simp [Codec.parseObject, parsed])

/-- A getter that deletes its tree on every path reads its field, or there is no memory for the
tree. -/
theorem meets_getter {α : Type} {line : Option Ptr} {text key : CStr} {answer : Option α}
    {take : Option Ptr → Option Item → Prog Block (Option α)} (points : Points own line text)
    (taken : ∀ {tree : Cells} {root : Option Ptr}, Leaves (free root) tree 0 →
      Meets (take root (Codec.getItem cjson text key)) (tree + own) fun result left =>
        left = own ∧ result = answer)
    (missing : ∀ {tree : Cells} {root : Option Ptr}, Leaves (free root) tree 0 →
      Meets (take root none) (tree + own) fun result left => left = own ∧ result = none) :
    Meets (do
        let root ← parseObject fails cjson line
        let item ← getItem root key
        take root item)
      own fun result left => left = own ∧
        ((result = none ∧ ∃ call, fails call = true) ∨ result = answer) := by
  apply (meets_parseObject points).andThen
  rintro root left ⟨tree, members, rfl, rooted, rfl | ⟨rfl, failed⟩⟩
  · apply (rooted.returns_getItem key).bind
    apply (taken rooted.freed).weaken
    rintro result left ⟨same, rfl⟩
    exact ⟨same, .inr rfl⟩
  · apply (rooted.returns_getItem key).bind
    apply (missing rooted.freed).weaken
    rintro result left ⟨same, rfl⟩
    exact ⟨same, .inl ⟨rfl, failed⟩⟩

/-- A string is read, or there is no memory for the tree. -/
theorem meets_jsonlGetString {line : Option Ptr} {text : CStr} (points : Points own line text)
    (key : CStr) (outSize : Nat) :
    Meets (jsonlGetString fails cjson line key outSize) own fun result left => left = own ∧
      ((result = none ∧ ∃ call, fails call = true) ∨
        result = Codec.jsonlGetString cjson text key outSize) := by
  apply meets_getter points
  · intro tree root freed
    unfold Codec.jsonlGetString
    cases Codec.getItem cjson text key with
    | none => exact meets_deleted freed none
    | some item =>
      cases item with
      | string valuestring =>
        dsimp only [takeString]
        by_cases long : outSize ≤ valuestring.bytes.length
        · rw [if_pos long, if_pos long]
          exact meets_deleted freed none
        · rw [if_neg long, if_neg long]
          exact meets_deleted freed (some valuestring)
      | null | bool | number | array | object => exact meets_deleted freed none
  · intro tree root freed
    exact meets_deleted freed none

/-- An integer is read, or there is no memory for the tree. -/
theorem meets_jsonlGetInt64 {line : Option Ptr} {text : CStr} (points : Points own line text)
    (key : CStr) :
    Meets (jsonlGetInt64 fails cjson line key) own fun result left => left = own ∧
      ((result = none ∧ ∃ call, fails call = true) ∨
        result = Codec.jsonlGetInt64 cjson text key) := by
  apply meets_getter points
  · intro tree root freed
    unfold Codec.jsonlGetInt64
    cases Codec.getItem cjson text key with
    | none => exact meets_deleted freed none
    | some item =>
      cases item with
      | number valuedouble =>
        cases valuedouble with
        | infinite negative => exact meets_deleted freed none
        | finite value =>
          dsimp only [takeInt64]
          by_cases outside : value < -jsonlMaxSafeInteger ∨ jsonlMaxSafeInteger < value
          · rw [if_pos outside, if_pos outside]
            exact meets_deleted freed none
          · rw [if_neg outside, if_neg outside]
            by_cases fraction : ((value.num.tdiv value.den : Int) : Rat) ≠ value
            · rw [if_pos fraction, if_pos fraction]
              exact meets_deleted freed none
            · rw [if_neg fraction, if_neg fraction]
              exact meets_deleted freed (some (Int64.ofInt (value.num.tdiv value.den)))
      | null | bool | string | array | object => exact meets_deleted freed none
  · intro tree root freed
    exact meets_deleted freed none

/-- The fields of a clip. -/
def clipFields (cjson : CJson) (text : CStr) : Option (CStr × CStr × CStr) :=
  (Codec.jsonlGetString cjson text (.ofBytes (ascii "session_id")) 128).bind fun session =>
    (Codec.jsonlGetInt64 cjson text (.ofBytes (ascii "ts"))).bind fun ts =>
      (Codec.jsonlGetString cjson text (.ofBytes (ascii "path")) pathMax).map fun path =>
        (session, CStr.ofWord ts, path)

/-- The key and the path of a line come from its fields. -/
theorem extractClip_eq (cjson : CJson) (line : Bytes) :
    extractClip cjson line = (clipFields cjson (.ofBytes line)).map fun clip =>
      (clip.1 ++ CStr.ofBytes (ascii ":") ++ clip.2.1, clip.2.2) := by
  simp only [extractClip, clipFields]
  cases Codec.jsonlGetString cjson (.ofBytes line) (.ofBytes (ascii "session_id")) 128 with
  | none => rfl
  | some session =>
    cases Codec.jsonlGetInt64 cjson (.ofBytes line) (.ofBytes (ascii "ts")) with
    | none => rfl
    | some ts =>
      cases Codec.jsonlGetString cjson (.ofBytes line) (.ofBytes (ascii "path")) pathMax <;> rfl

/-- The fields of a line are read, or there is no memory for one of its trees. -/
theorem meets_readClip {line : Option Ptr} {text : CStr} (points : Points own line text) :
    Meets (readClip fails cjson line) own fun result left => left = own ∧
      ((result = none ∧ ∃ call, fails call = true) ∨ result = clipFields cjson text) := by
  apply (meets_jsonlGetString points _ _).andThen
  rintro session left ⟨rfl, ⟨rfl, failed⟩ | found⟩
  · exact .pure ⟨rfl, .inl ⟨rfl, failed⟩⟩
  cases session with
  | none => exact .pure ⟨rfl, .inr (by rw [clipFields, ← found]; rfl)⟩
  | some session =>
    apply (meets_jsonlGetInt64 points _).andThen
    rintro ts left ⟨rfl, ⟨rfl, failed⟩ | second⟩
    · exact .pure ⟨rfl, .inl ⟨rfl, failed⟩⟩
    cases ts with
    | none => exact .pure ⟨rfl, .inr (by rw [clipFields, ← found, ← second]; rfl)⟩
    | some ts =>
      apply (meets_jsonlGetString points _ _).andThen
      rintro path left ⟨rfl, ⟨rfl, failed⟩ | third⟩
      · exact .pure ⟨rfl, .inl ⟨rfl, failed⟩⟩
      have fields : path.map (fun path => (session, CStr.ofWord ts, path)) =
          clipFields cjson text := by
        rw [clipFields, ← found, ← second, third]
        rfl
      cases path with
      | none => exact .pure ⟨rfl, .inr fields⟩
      | some path => exact .pure ⟨rfl, .inr fields⟩

/-- A clip is appended with its buffers freed, or there is no memory for its key. -/
theorem meets_storeClip (seek print : Bool) (expireAt : Int64) (session ts path : CStr) :
    Meets (storeClip fails junk miniz seek print expireAt session ts path) 0 fun result left =>
      left = 0 ∧ ∃ refused starved : Bool,
        ((∀ call, fails call = false) → refused = false ∧ starved = false) ∧
        result = if refused then none
          else Store.appendDbRow miniz ⟨seek, starved, false, false, print⟩
            (session ++ CStr.ofBytes (ascii ":") ++ ts) path expireAt := by
  apply (meets_alloc (fun _ => false) (strBlock path)).andThen
  rintro field left (⟨-, -, call, never⟩ | ⟨field, rfl, rfl⟩)
  · contradiction
  apply (meets_buildKey fails junk session ts).bind (zero_add _).symm
  rintro ⟨built, key⟩ left ⟨freed, ⟨rfl, call, failed⟩ | ⟨rfl, points⟩⟩
  · apply freed.bind rfl
    apply (leaves_free field _).bind (add_comm _ _)
    refine .pure ⟨zero_add 0, true, false, fun quiet => ?_, rfl⟩
    rw [quiet call] at failed
    contradiction
  · rw [if_pos rfl]
    have value : Points (left + {(field, strBlock path)}) (some ⟨field, 0⟩) path :=
      points_strBlock (by simp)
    have name := points.mono (Multiset.le_add_right left {(field, strBlock path)})
    apply (@meets_appendDbRow _ fails junk miniz ⟨key.data, some ⟨field, 0⟩, expireAt, none⟩
      ⟨_, path, expireAt⟩ name value rfl seek print).andThen
    rintro row left ⟨rfl, starved, calm, appended⟩
    apply freed.bind rfl
    apply (leaves_free field _).bind (add_comm _ _)
    exact .pure ⟨zero_add 0, false, starved, fun quiet => ⟨rfl, calm quiet⟩, appended⟩

/-! ## All lines -/

/-- The calls of the default mode that fail, by line. -/
structure IngestFaults where
  /-- `getline`, which ends the run. -/
  ended : Nat → Bool
  /-- A tree of the line, which is skipped. -/
  dropped : Nat → Bool
  /-- The key. -/
  refused : Nat → Bool
  /-- The buffers of `append_db_row`. -/
  starved : Nat → Bool

/-- No call fails. -/
def IngestFaults.none : IngestFaults :=
  ⟨fun _ => false, fun _ => false, fun _ => false, fun _ => false⟩

/-- Other calls of one line fail. -/
def IngestFaults.set (faults : IngestFaults) (number : Nat) (ended dropped refused starved : Bool) :
    IngestFaults :=
  ⟨Function.update faults.ended number ended, Function.update faults.dropped number dropped,
    Function.update faults.refused number refused, Function.update faults.starved number starved⟩

/-- Nothing changes where nothing fails. -/
theorem IngestFaults.set_none (number : Nat) :
    IngestFaults.none.set number false false false false = .none := by
  simp [set, none]

/-- Another line is as before. -/
theorem IngestFaults.set_later (faults : IngestFaults) {past number : Nat} (before : past < number)
    (ended dropped refused starved : Bool) :
    (faults.set past ended dropped refused starved).ended number = faults.ended number ∧
      (faults.set past ended dropped refused starved).dropped number = faults.dropped number ∧
      (faults.set past ended dropped refused starved).refused number = faults.refused number ∧
      (faults.set past ended dropped refused starved).starved number = faults.starved number := by
  have other : number ≠ past := by omega
  simp [set, Function.update_of_ne other]

/-- What some lines append, with the status, when some calls fail. -/
def written (miniz : Miniz) (cjson : CJson) (out : OutputFaults) (faults : IngestFaults)
    (ttl : Int64) (rowNow : Nat → Int64) : Nat → List Bytes → Nat × Bytes
  | _, [] => (0, [])
  | number, line :: rest =>
    let later := written miniz cjson out faults ttl rowNow (number + 1) rest
    if faults.ended number then (0, [])
    else
      (if faults.dropped number then none else extractClip cjson line).elim later fun clip =>
        (if faults.refused number then none
          else Store.appendDbRow miniz
            ⟨out.seek number, faults.starved number, false, false, out.print number⟩ clip.1 clip.2
            (expiration ttl (rowNow number))).elim (1, []) fun row => (later.1, row ++ later.2)

variable {out : OutputFaults} {ttl : Int64} {rowNow : Nat → Int64}

/-- The lines from one on do not look at what failed before it. -/
theorem written_set {faults : IngestFaults} {past number : Nat} (before : past < number)
    (ended dropped refused starved : Bool) (text : List Bytes) :
    written miniz cjson out (faults.set past ended dropped refused starved) ttl rowNow number text =
      written miniz cjson out faults ttl rowNow number text := by
  induction text generalizing number with
  | nil => rfl
  | cons line rest ih =>
    have other : number ≠ past := by omega
    have later : past < number + 1 := by omega
    simp only [written, IngestFaults.set, Function.update_of_ne other]
    rw [← IngestFaults.set, ih later]

/-- One line and what follows it. -/
theorem written_cons (faults : IngestFaults) (number : Nat) (ended dropped refused starved : Bool)
    (line : Bytes) (rest : List Bytes) :
    written miniz cjson out (faults.set number ended dropped refused starved) ttl rowNow number
        (line :: rest) =
      let later := written miniz cjson out faults ttl rowNow (number + 1) rest
      if ended then (0, [])
      else
        (if dropped then none else extractClip cjson line).elim later fun clip =>
          (if refused then none
            else Store.appendDbRow miniz
              ⟨out.seek number, starved, false, false, out.print number⟩ clip.1 clip.2
              (expiration ttl (rowNow number))).elim (1, []) fun row =>
            (later.1, row ++ later.2) := by
  simp only [written, written_set (Nat.lt_add_one number)]
  simp only [IngestFaults.set, Function.update_self]

/-- Without failing calls the default mode appends what the lines give. -/
theorem appendClips_eq_written (number : Nat) (text : List Bytes) (db : Bytes) :
    Store.appendClips miniz cjson ttl rowNow number text db =
      let result :=
        written miniz cjson ⟨fun _ => false, fun _ => false⟩ .none ttl rowNow number text
      ⟨result.1, [], db ++ result.2⟩ := by
  induction text generalizing number db with
  | nil => simp [Store.appendClips, written]
  | cons line rest ih =>
    simp only [Store.appendClips, written, IngestFaults.none, Bool.false_eq_true, if_false]
    cases extractClip cjson line with
    | none => exact ih (number + 1) db
    | some clip =>
      simp only [Option.elim_some]
      cases appended : Store.appendDbRow miniz ⟨false, false, false, false, false⟩ clip.1 clip.2
          (expiration ttl (rowNow number)) with
      | none => simp [AppendFaults.none, appended]
      | some row =>
        simp only [AppendFaults.none, appended, ih]
        simp [IngestFaults.none]

/-- A row is missing when there is no memory for it or it cannot be printed. -/
theorem fault_of_unstored {refused seek starved print : Bool} {key value : CStr} {expireAt : Int64}
    (stored : none = if refused then none
      else Store.appendDbRow miniz ⟨seek, starved, false, false, print⟩ key value expireAt) :
    refused = true ∨ starved = true ∨ seek = true ∨ print = true := by
  by_contra calm
  simp only [not_or, Bool.not_eq_true] at calm
  obtain ⟨rfl, rfl, rfl, rfl⟩ := calm
  have whole := appendDbRow_none miniz key value expireAt
  rw [if_neg Bool.false_ne_true] at stored
  rw [AppendFaults.none, ← stored] at whole
  contradiction

/-- A row that is stored is written as if there were memory for everything. -/
theorem appended_of_stored {refused seek starved print : Bool} {key value : CStr}
    {expireAt : Int64} {row : Bytes}
    (stored : some row = if refused then none
      else Store.appendDbRow miniz ⟨seek, starved, false, false, print⟩ key value expireAt) :
    Store.appendDbRow miniz ⟨seek, false, false, false, print⟩ key value expireAt = some row := by
  cases refused with
  | true => contradiction
  | false =>
    rw [if_neg Bool.false_ne_true] at stored
    cases starved with
    | false => exact stored.symm
    | true =>
      by_cases empty : value.bytes.isEmpty = true
      · simpa [Store.appendDbRow, empty] using stored.symm
      · simp [Store.appendDbRow, empty] at stored

section Happening

variable (fails junk miniz cjson out ttl rowNow)

/-- The calls that fail are those that fail when the loop goes over some lines: `getline` ends it,
the getters have it skip a line with its fields, and a row that is not stored stops it. -/
inductive Happen (faults : IngestFaults) :
    Nat → List Bytes → Option Ptr → Heap Block → Prop where
  /-- No line is left. -/
  | finished {number : Nat} {line : Option Ptr} {heap : Heap Block} :
    Happen faults number [] line heap
  /-- `getline` has no memory. -/
  | ended {number : Nat} {first : Bytes} {rest : List Bytes} {line got : Option Ptr}
    {heap read : Heap Block} (starved : getline fails line first heap = some ((false, got), read))
    (fault : faults.ended number = true) : Happen faults number (first :: rest) line heap
  /-- The getters have no memory, or the line has not all fields. -/
  | skipped {number : Nat} {first : Bytes} {rest : List Bytes} {line got : Option Ptr}
    {heap read parsed : Heap Block}
    (whole : getline fails line first heap = some ((true, got), read))
    (missing : readClip fails cjson got read = some (none, parsed))
    (kept : faults.ended number = false)
    (fault : faults.dropped number = (extractClip cjson first).isSome)
    (later : Happen faults (number + 1) rest got parsed) :
    Happen faults number (first :: rest) line heap
  /-- The row is not stored. -/
  | stopped {number : Nat} {first : Bytes} {rest : List Bytes} {line got : Option Ptr}
    {heap read parsed stored : Heap Block} {clip : CStr × CStr × CStr}
    (whole : getline fails line first heap = some ((true, got), read))
    (found : readClip fails cjson got read = some (some clip, parsed))
    (unwritten : storeClip fails junk miniz (out.seek number) (out.print number)
      (expiration ttl (rowNow number)) clip.1 clip.2.1 clip.2.2 parsed = some (none, stored))
    (kept : faults.ended number = false ∧ faults.dropped number = false)
    (fault : faults.refused number = true ∨ faults.starved number = true ∨
      out.seek number = true ∨ out.print number = true) :
    Happen faults number (first :: rest) line heap
  /-- The row is stored. -/
  | stored {number : Nat} {first row : Bytes} {rest : List Bytes} {line got : Option Ptr}
    {heap read parsed stored : Heap Block} {clip : CStr × CStr × CStr}
    (whole : getline fails line first heap = some ((true, got), read))
    (found : readClip fails cjson got read = some (some clip, parsed))
    (written : storeClip fails junk miniz (out.seek number) (out.print number)
      (expiration ttl (rowNow number)) clip.1 clip.2.1 clip.2.2 parsed = some (some row, stored))
    (kept : faults.ended number = false ∧ faults.dropped number = false ∧
      faults.refused number = false ∧ faults.starved number = false)
    (later : Happen faults (number + 1) rest got stored) :
    Happen faults number (first :: rest) line heap

end Happening

/-- What happens from a line on has nothing to do with what failed before it. -/
theorem Happen.set {faults : IngestFaults} {past number : Nat} {text : List Bytes}
    {line : Option Ptr} {heap : Heap Block}
    (happen : Happen fails junk miniz cjson out ttl rowNow faults number text line heap)
    (before : past < number) (ended dropped refused starved : Bool) :
    Happen fails junk miniz cjson out ttl rowNow
      (faults.set past ended dropped refused starved) number text line heap := by
  induction happen with
  | finished => exact .finished
  | ended short fault =>
    obtain ⟨ends, -⟩ := faults.set_later before ended dropped refused starved
    exact .ended short (ends.trans fault)
  | skipped whole missing kept fault later ih =>
    obtain ⟨ends, drops, -⟩ := faults.set_later before ended dropped refused starved
    exact .skipped whole missing (ends.trans kept) (drops.trans fault) (ih (by omega))
  | stopped whole found unwritten kept fault =>
    obtain ⟨ends, drops, refuses, starves⟩ :=
      faults.set_later before ended dropped refused starved
    refine .stopped whole found unwritten ⟨ends.trans kept.1, drops.trans kept.2⟩ ?_
    rwa [refuses, starves]
  | stored whole found written kept later ih =>
    obtain ⟨ends, drops, refuses, starves⟩ :=
      faults.set_later before ended dropped refused starved
    refine .stored whole found written ?_ (ih (by omega))
    rwa [ends, drops, refuses, starves]

/-! Each end of a line: what the loop gives there is what is written under the calls that failed. -/

section Ends

variable {number : Nat} {first : Bytes} {rest : List Bytes} {line got : Option Ptr}
  {heap read parsed after : Heap Block}

/-- `getline` fails. -/
theorem appendClips_ended (short : getline fails line first heap = some ((false, got), read))
    (closed : free got read = some ((), after)) :
    appendClips fails junk miniz cjson out ttl rowNow number (first :: rest) line heap =
      some (written miniz cjson out { IngestFaults.none with ended := fun _ => true } ttl rowNow
        number (first :: rest), after) := by
  rw [appendClips, run_bind short, if_neg Bool.false_ne_true, run_bind closed, written, if_pos rfl]
  rfl

/-- A line without a clip is skipped. -/
theorem appendClips_skipped {faults : IngestFaults}
    (whole : getline fails line first heap = some ((true, got), read))
    (missing : readClip fails cjson got read = some (none, parsed))
    (later : appendClips fails junk miniz cjson out ttl rowNow (number + 1) rest got parsed =
      some (written miniz cjson out faults ttl rowNow (number + 1) rest, after)) :
    appendClips fails junk miniz cjson out ttl rowNow number (first :: rest) line heap =
      some (written miniz cjson out
        (faults.set number false (extractClip cjson first).isSome false false) ttl rowNow number
        (first :: rest), after) := by
  rw [appendClips, run_bind whole, if_pos rfl, run_bind missing, written_cons]
  refine later.trans ?_
  cases extractClip cjson first <;> rfl

variable {clip : CStr × CStr × CStr} {refused starved : Bool}

/-- A row that is not stored stops the loop. -/
theorem appendClips_stopped {stored : Heap Block}
    (whole : getline fails line first heap = some ((true, got), read))
    (found : readClip fails cjson got read = some (some clip, parsed))
    (unwritten : storeClip fails junk miniz (out.seek number) (out.print number)
      (expiration ttl (rowNow number)) clip.1 clip.2.1 clip.2.2 parsed = some (none, stored))
    (closed : free got stored = some ((), after))
    (taken : extractClip cjson first =
      some (clip.1 ++ CStr.ofBytes (ascii ":") ++ clip.2.1, clip.2.2))
    (lost : none = if refused then none
      else Store.appendDbRow miniz ⟨out.seek number, starved, false, false, out.print number⟩
        (clip.1 ++ CStr.ofBytes (ascii ":") ++ clip.2.1) clip.2.2
        (expiration ttl (rowNow number))) :
    appendClips fails junk miniz cjson out ttl rowNow number (first :: rest) line heap =
      some (written miniz cjson out (IngestFaults.none.set number false false refused starved) ttl
        rowNow number (first :: rest), after) := by
  rw [appendClips, run_bind whole, if_pos rfl, run_bind found]
  refine (run_bind unwritten).trans ((run_bind closed).trans ?_)
  rw [written_cons, taken]
  simp only [Bool.false_eq_true, if_false, Option.elim_some]
  rw [← lost]
  rfl

/-- A row that is stored stands before those of the later lines. -/
theorem appendClips_stored {faults : IngestFaults} {row : Bytes} {stored : Heap Block}
    (whole : getline fails line first heap = some ((true, got), read))
    (found : readClip fails cjson got read = some (some clip, parsed))
    (put : storeClip fails junk miniz (out.seek number) (out.print number)
      (expiration ttl (rowNow number)) clip.1 clip.2.1 clip.2.2 parsed = some (some row, stored))
    (later : appendClips fails junk miniz cjson out ttl rowNow (number + 1) rest got stored =
      some (written miniz cjson out faults ttl rowNow (number + 1) rest, after))
    (taken : extractClip cjson first =
      some (clip.1 ++ CStr.ofBytes (ascii ":") ++ clip.2.1, clip.2.2))
    (kept : some row = if refused then none
      else Store.appendDbRow miniz ⟨out.seek number, starved, false, false, out.print number⟩
        (clip.1 ++ CStr.ofBytes (ascii ":") ++ clip.2.1) clip.2.2
        (expiration ttl (rowNow number))) :
    appendClips fails junk miniz cjson out ttl rowNow number (first :: rest) line heap =
      some (written miniz cjson out (faults.set number false false false false) ttl rowNow number
        (first :: rest), after) := by
  rw [appendClips, run_bind whole, if_pos rfl, run_bind found]
  refine (run_bind put).trans ((run_bind later).trans ?_)
  rw [written_cons, taken]
  simp only [Bool.false_eq_true, if_false, Option.elim_some]
  rw [appended_of_stored kept]
  rfl

end Ends

/-- The default mode frees the buffers of every line, and its outcome is that of the calls that
fail on the way. -/
theorem appendClips_run {number : Nat} {text : List Bytes} {line : Option Ptr}
    {source rest : Cells} {heap : Heap Block} (freed : Leaves (free line) source 0)
    (holds : heap.Holds (source + rest)) :
    ∃ (faults : IngestFaults) (after : Heap Block),
      appendClips fails junk miniz cjson out ttl rowNow number text line heap =
        some (written miniz cjson out faults ttl rowNow number text, after) ∧
      after.Holds rest ∧
      Happen fails junk miniz cjson out ttl rowNow faults number text line heap ∧
      ((∀ call, fails call = false) → faults = .none) := by
  induction text generalizing number line source heap with
  | nil =>
    obtain ⟨got, left, read, ran, ends, gone, -⟩ := meets_getline fails freed [] heap rest holds
    obtain ⟨after, closed, closes⟩ := gone.run ends
    rw [zero_add] at closes
    refine ⟨.none, after, ?_, closes, .finished, fun _ => rfl⟩
    rw [appendClips, run_bind ran, run_bind closed]
    rfl
  | cons first text ih =>
    obtain ⟨⟨enough, fresh⟩, left, read, ran, ends, gone, short⟩ :=
      meets_getline fails freed first heap rest holds
    rcases short with ⟨rfl, call, failed⟩ | ⟨block, same, rfl⟩
    · obtain ⟨after, closed, closes⟩ := gone.run ends
      rw [zero_add] at closes
      refine ⟨_, after, appendClips_ended ran closed, closes, .ended ran rfl, fun quiet => ?_⟩
      rw [quiet call] at failed
      contradiction
    obtain ⟨rfl, rfl⟩ := Prod.mk.inj same
    have points : Points {(block, .text (first ++ [0]))} (some ⟨block, 0⟩) (CStr.ofBytes first) :=
      ⟨block, 0, first ++ [0], rfl, by simp, by simp, ofBytes_terminated first []⟩
    obtain ⟨clip, left, parsed, took, keeps, rfl, found⟩ := meets_readClip points read rest ends
    have taken := extractClip_eq cjson first
    cases clip with
    | none =>
      obtain ⟨faults, after, later, closes, happen, calm⟩ := ih (leaves_free block _) keeps
      refine ⟨_, after, appendClips_skipped ran took later, closes,
        .skipped ran took (by simp [IngestFaults.set]) (by simp [IngestFaults.set])
          (happen.set (Nat.lt_add_one number) _ _ _ _), fun quiet => ?_⟩
      rcases found with ⟨-, call, failed⟩ | found
      · rw [quiet call] at failed
        contradiction
      · rw [taken, ← found, calm quiet]
        exact IngestFaults.set_none number
    | some clip =>
      have fields : clipFields cjson (.ofBytes first) = some clip := by
        rcases found with ⟨missing, -⟩ | found
        · contradiction
        · exact found.symm
      rw [fields, Option.map_some] at taken
      have alone : parsed.Holds (0 + ({(block, .text (first ++ [0]))} + rest)) := by
        rwa [zero_add]
      obtain ⟨row, left, stored, put, stays, rfl, refused, starved, calm, appended⟩ :=
        @meets_storeClip fails junk miniz (out.seek number) (out.print number)
          (expiration ttl (rowNow number)) clip.1 clip.2.1 clip.2.2 parsed _ alone
      rw [zero_add] at stays
      cases row with
      | none =>
        obtain ⟨after, closed, closes⟩ := (leaves_free block _).run stays
        rw [zero_add] at closes
        refine ⟨_, after, appendClips_stopped ran took put closed taken appended, closes,
          .stopped ran took put (by simp [IngestFaults.set]) ?_, fun quiet => ?_⟩
        · simp only [IngestFaults.set, Function.update_self]
          exact fault_of_unstored appended
        · obtain ⟨rfl, rfl⟩ := calm quiet
          exact IngestFaults.set_none number
      | some row =>
        obtain ⟨faults, after, later, closes, happen, quiet⟩ := ih (leaves_free block _) stays
        refine ⟨_, after, appendClips_stored ran took put later taken appended, closes,
          .stored ran took put (by simp [IngestFaults.set])
            (happen.set (Nat.lt_add_one _) _ _ _ _), fun none => ?_⟩
        rw [quiet none]
        exact IngestFaults.set_none number

/-- The default mode reads and writes inside its blocks only and frees each of them once whatever
fails: a starved parse skips its line, a starved `getline` or row ends the run. When no call fails
it appends what the lines give. -/
theorem appendClips_releases (fails : Nat → Bool) (junk : UInt8) (miniz : Miniz) (cjson : CJson)
    (out : OutputFaults) (ttl : Int64) (rowNow : Nat → Int64) (text : List Bytes) :
    ∃ (faults : IngestFaults) (after : Heap Block),
      appendClips fails junk miniz cjson out ttl rowNow 0 text none .empty =
        some (written miniz cjson out faults ttl rowNow 0 text, after) ∧
      after.cells = [] ∧
      Happen fails junk miniz cjson out ttl rowNow faults 0 text none .empty ∧
      ((∀ call, fails call = false) → faults = .none ∧
        (out = ⟨fun _ => false, fun _ => false⟩ → ∀ db,
          Store.appendClips miniz cjson ttl rowNow 0 text db =
            ⟨(written miniz cjson out faults ttl rowNow 0 text).1, [],
              db ++ (written miniz cjson out faults ttl rowNow 0 text).2⟩)) := by
  have start : (Heap.empty : Heap Block).Holds (0 + 0) := rfl
  obtain ⟨faults, after, ran, closes, happen, calm⟩ := appendClips_run leaves_free_null start
  refine ⟨faults, after, ran, (Multiset.coe_eq_zero _).mp closes, happen, fun quiet => ?_⟩
  obtain rfl := calm quiet
  refine ⟨rfl, ?_⟩
  rintro rfl db
  exact appendClips_eq_written 0 text db

end StreamPipeline.Store.Memory
