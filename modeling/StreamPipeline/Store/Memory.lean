import StreamPipeline.Lib.Blocks
import StreamPipeline.Store.Buckets
import StreamPipeline.Store.Main

/-!
# The applet and its memory

The functions of `clip_store` that read the database, with every block they allocate and free: the
line of `getline`, the buffers of the codec, the two arrays of the index and the strings its rows
own. Any allocation can fail, and a byte `malloc` gives has any value. A store behind the end of a
block has no result.
-/

namespace StreamPipeline.Store.Memory

open Blocks Probing

/-- `row_t`. -/
structure RowFields where
  /-- `key`. -/
  key : Option Ptr := none
  /-- `value`. -/
  value : Option Ptr := none
  /-- `expire_at`. -/
  expireAt : Int64 := 0
  /-- `_alloc`. -/
  alloc : Option Ptr := none
  deriving DecidableEq

/-- What a block contains. -/
inductive Block where
  /-- Characters. -/
  | text (bytes : Bytes)
  /-- The array `rows`. -/
  | rows (rows : List RowFields)
  /-- The array `used`. -/
  | used (used : List Bool)
  /-- A tree of the parser, by its root. -/
  | tree (root : Codec.Item)
  /-- The state of the decompressor. -/
  | handle

/-- `row_index_t`. -/
structure IndexFields where
  /-- `rows`. -/
  rows : Option Ptr := none
  /-- `used`. -/
  used : Option Ptr := none
  /-- `len`. -/
  len : Nat := 0
  /-- `cap`. -/
  cap : Nat := 0
  deriving DecidableEq

/-! ## Reading and writing -/

/-- The characters of a block, from a pointer to its start. -/
def chars : Option Ptr → Prog Block Bytes
  | some ⟨block, 0⟩ => do
    match ← load block with
    | .text bytes => pure bytes
    | _ => undefined
  | _ => undefined

/-- The string at a pointer; characters without a terminator are none. -/
def readStr : Option Ptr → Prog Block CStr
  | none => undefined
  | some ptr => do
    match ← load ptr.block with
    | .text bytes =>
      if 0 ∈ bytes.drop ptr.offset then pure (.ofBytes (bytes.drop ptr.offset)) else undefined
    | _ => undefined

/-- Other characters for a block. -/
def setChars (ptr : Option Ptr) (bytes : Bytes) : Prog Block Unit :=
  match ptr with
  | some ⟨block, 0⟩ => store block (.text bytes)
  | _ => undefined

/-- Bytes stored from the start of a block on. -/
def overwrite (text : Option Ptr) (bytes : Bytes) : Prog Block Unit := do
  let old ← chars text
  if bytes.length ≤ old.length then setChars text (bytes ++ old.drop bytes.length) else undefined

/-- The store of a terminator, `text[place] = '\0'`. -/
def terminate (text : Option Ptr) (place : Nat) : Prog Block Unit := do
  let bytes ← chars text
  if place < bytes.length then setChars text (bytes.set place 0) else undefined

/-- An item of an array; none is behind its end. -/
def item {α : Type} : Option α → Prog Block α
  | some found => pure found
  | none => undefined

/-- `used[i]`. -/
def readUsed (index : IndexFields) (i : Nat) : Prog Block Bool :=
  match index.used with
  | some ⟨block, 0⟩ => do
    match ← load block with
    | .used used => item used[i]?
    | _ => undefined
  | _ => undefined

/-- `used[i] = 1`. -/
def setUsed (index : IndexFields) (i : Nat) : Prog Block Unit :=
  match index.used with
  | some ⟨block, 0⟩ => do
    match ← load block with
    | .used used => if i < used.length then store block (.used (used.set i true)) else undefined
    | _ => undefined
  | _ => undefined

/-- `rows[i]`. -/
def readRow (index : IndexFields) (i : Nat) : Prog Block RowFields :=
  match index.rows with
  | some ⟨block, 0⟩ => do
    match ← load block with
    | .rows rows => item rows[i]?
    | _ => undefined
  | _ => undefined

/-- `rows[i] = row`. -/
def writeRow (index : IndexFields) (i : Nat) (row : RowFields) : Prog Block Unit :=
  match index.rows with
  | some ⟨block, 0⟩ => do
    match ← load block with
    | .rows rows => if i < rows.length then store block (.rows (rows.set i row)) else undefined
    | _ => undefined
  | _ => undefined

/-! ## The index -/

/-- The search of `find_slot` from a bucket on; no result when it never ends. -/
def findFrom (index : IndexFields) (key : CStr) : Nat → Nat → Prog Block (Nat × Bool)
  | 0, _ => undefined
  | fuel + 1, idx => do
    if ← readUsed index idx then
      let row ← readRow index idx
      let text ← readStr row.key
      if text = key then pure (idx, true)
      else findFrom index key fuel (wrap index.cap (idx + 1))
    else pure (idx, false)

/-- `find_slot`. -/
def findSlot (index : IndexFields) (key : CStr) : Prog Block (Nat × Bool) :=
  findFrom index key index.cap (wrap index.cap (hashKey key).toNat)

/-- `row_index_get`; the row is a copy of the fields pointed to. -/
def rowIndexGet (index : IndexFields) (key : CStr) : Prog Block (Option RowFields) :=
  if index.cap = 0 then pure none
  else do
    let stop ← findSlot index key
    if stop.2 then
      let row ← readRow index stop.1
      pure (some row)
    else pure none

/-- The loop of `row_index_free` over the rows from `i` on. -/
def freeRows (index : IndexFields) : Nat → Nat → Prog Block Unit
  | 0, _ => pure ()
  | left + 1, i => do
    if ← readUsed index i then
      let row ← readRow index i
      free row.key
      free row.value
      writeRow index i { row with key := none, value := none, expireAt := 0 }
      freeRows index left (i + 1)
    else freeRows index left (i + 1)

/-- `row_index_free`. -/
def rowIndexFree (index : IndexFields) : Prog Block Unit := do
  freeRows index index.cap 0
  free index.rows
  free index.used

section Allocating

-- The allocations that fail, by their number.
variable (fails : Nat → Bool)

/-- `strdup`. -/
def strdup (text : Option Ptr) : Prog Block (Option Ptr) := do
  let text ← readStr text
  alloc fails (.text (text.bytes ++ [0]))

/-- `allocate_buckets`; none is its `-1`. -/
def allocateBuckets (cap : Nat) : Prog Block (Option IndexFields) := do
  let rows ← alloc fails (.rows (List.replicate cap {}))
  let used ← alloc fails (.used (List.replicate cap false))
  if rows.isNone || used.isNone then
    free rows
    free used
    pure none
  else pure (some ⟨rows, used, 0, cap⟩)

/-- The loop of `row_index_grow` over the rows from `i` on. -/
def moveFrom (index : IndexFields) : Nat → Nat → IndexFields → Prog Block IndexFields
  | 0, _, grown => pure grown
  | left + 1, i, grown => do
    if ← readUsed index i then
      let row ← readRow index i
      let key ← readStr row.key
      let stop ← findSlot grown key
      writeRow grown stop.1 row
      setUsed grown stop.1
      moveFrom index left (i + 1) { grown with len := grown.len + 1 }
    else moveFrom index left (i + 1) grown

/-- `row_index_grow` to another capacity. -/
def growTo (index : IndexFields) (cap : Nat) : Prog Block (Option IndexFields) := do
  match ← allocateBuckets fails cap with
  | none => pure none
  | some blank => do
    let grown ← moveFrom index index.cap 0 blank
    free index.rows
    free index.used
    pure (some grown)

/-- `row_index_grow`; none is its `-1`. -/
def rowIndexGrow (index : IndexFields) (nextLen : Nat) : Prog Block (Option IndexFields) :=
  let cap := nextCap nextLen (startCap index.cap) (startCap_pos index.cap)
  if cap = index.cap then pure (some index) else growTo fails index cap

/-- `replace_row`: whether it returns `0`, and `*dst`. -/
def replaceRow (dst src : RowFields) : Prog Block (Bool × RowFields) := do
  let key ← strdup fails src.key
  let value ← strdup fails src.value
  if key.isNone || value.isNone then
    free key
    free value
    pure (false, dst)
  else
    free dst.key
    free dst.value
    pure (true, { dst with key, value, expireAt := src.expireAt })

/-- `row_index_put`: whether it returns `0`, and `*index`. -/
def rowIndexPut (index : IndexFields) (row : RowFields) : Prog Block (Bool × IndexFields) := do
  match ← rowIndexGrow fails index (index.len + 1) with
  | none => pure (false, index)
  | some index => do
    let key ← readStr row.key
    let stop ← findSlot index key
    let dst ← readRow index stop.1
    let replaced ← replaceRow fails dst row
    writeRow index stop.1 replaced.2
    if stop.2 then pure (replaced.1, index)
    else if replaced.1 then
      setUsed index stop.1
      pure (true, { index with len := index.len + 1 })
    else pure (false, index)

/-! ## Rows of the file -/

-- The value of an unwritten byte, and the compressor.
variable (junk : UInt8) (miniz : Miniz)

/-- `malloc`. -/
def malloc (size : Nat) : Prog Block (Option Ptr) := alloc fails (.text (List.replicate size junk))

/-- The decompression loop with `uncomp`: none is a `realloc` that fails, with everything freed.
`uncomp_len` is absent when the loop ends with another status than `Z_OK`. -/
def inflate (comp : Option Ptr) (stream : Bytes) (uncomp : Option Ptr) (capacity : Nat)
    (positive : 0 < capacity) : Prog Block (Option (Option Ptr × Option Nat)) := do
  match ← alloc fails .handle with
  | none => pure (some (uncomp, none))
  | some state => do
    free (some state)
    match _found : miniz.uncompress capacity stream with
    | .ok plain => do
      overwrite uncomp plain
      pure (some (uncomp, some plain.length))
    | .failed => pure (some (uncomp, none))
    | .bufError => do
      match ← realloc fails uncomp (.text (List.replicate (capacity * 2) junk)) with
      | none => do
        free uncomp
        free comp
        pure none
      | some uncomp =>
        inflate comp stream (some uncomp) (capacity * 2) (Nat.mul_pos positive Nat.two_pos)
termination_by ((miniz.plain stream).getD []).length - capacity
decreasing_by
  unfold Miniz.uncompress at _found
  split at _found
  · contradiction
  · rename_i plain same
    rw [same, Option.getD_some]
    by_cases fits : plain.length ≤ capacity
    · simp [fits] at _found
    · omega

/-- What follows the loop: a plain text gets its terminator, and without one `uncomp` is freed. -/
def finish (uncomp : Option Ptr) : Option Nat → Prog Block (Option Ptr)
  | some uncompLen => do
    terminate uncomp uncompLen
    pure uncomp
  | none => do
    free uncomp
    pure none

/-- What follows the loop frees `comp` first. -/
def endInflate (comp : Option Ptr) : Option (Option Ptr × Option Nat) → Prog Block (Option Ptr)
  | none => pure none
  | some inflated => do
    free comp
    finish inflated.1 inflated.2

/-- The first buffer has room for a byte. -/
theorem uncompLen_pos (stream : Bytes) : 0 < stream.length * 4 + 1024 := by omega

/-- The decompression of what `base64_decode` gives. -/
def inflateDecoded (comp : Option Ptr) : Option Bytes → Prog Block (Option Ptr)
  | none => do
    free comp
    pure none
  | some stream => do
    overwrite comp stream
    match ← malloc fails junk (stream.length * 4 + 1024) with
    | none => do
      free comp
      pure none
    | some uncomp => do
      let inflated ← inflate fails junk miniz comp stream (some uncomp)
        (stream.length * 4 + 1024) (uncompLen_pos stream)
      endInflate comp inflated

/-- The value behind the mark in a block of its own; none is the `-1` of `parse_db_row`. -/
def decodeStream (text : Bytes) : Prog Block (Option Ptr) := do
  match ← malloc fails junk (text.length + 1) with
  | none => pure none
  | some comp =>
    inflateDecoded fails junk miniz (some comp) (Base64.decode 58 text (text.length + 1))

/-- `parse_db_row` on a line already cut at CR and LF; none is its `-1`. -/
def parseDbRow (line : Option Ptr) : Prog Block (Option RowFields) := do
  let text ← readStr line
  match cutAt tab text.bytes with
  | none => pure none
  | some (key, rest) =>
    match cutAt tab rest with
    | none => pure none
    | some (value, time) => do
      terminate line key.length
      terminate line (key.length + 1 + value.length)
      match strtol time with
      | none => pure none
      | some (expireAt, stop) =>
        if stop ≠ [] then pure none
        else
          let behind := line.map fun ptr => { ptr with offset := ptr.offset + (key.length + 1) }
          if (ascii "Z:").isPrefixOf value then do
            match ← decodeStream fails junk miniz (value.drop 2) with
            | none => pure none
            | some uncomp => pure (some ⟨line, some uncomp, expireAt, some uncomp⟩)
          else pure (some ⟨line, behind, expireAt, none⟩)

/-- `free_db_row`. -/
def freeDbRow (row : RowFields) : Prog Block Unit := free row.alloc

/-! ## Loading -/

/-- `getline`: whether it has memory for the text, and the line. The buffer moves in every call. -/
def getline (line : Option Ptr) (text : Bytes) : Prog Block (Bool × Option Ptr) := do
  match ← realloc fails line (.text (text ++ [0])) with
  | none => pure (false, line)
  | some fresh => pure (true, some fresh)

/-- `line[strcspn(line, "\r\n")] = '\0'`. -/
def cutLine (line : Option Ptr) : Prog Block Unit := do
  let text ← readStr line
  terminate line (text.bytes.takeWhile fun byte => byte ≠ cr ∧ byte ≠ lf).length

/-- The read loop of `load_latest_rows` from a line on: whether it returns `0`, and `*out`. -/
def loadFrom (reads : Nat → Bool) :
    Nat → List Bytes → Option Ptr → IndexFields → Prog Block (Bool × IndexFields)
  | number, [], line, index => do
    let got ← getline fails line []
    free got.2
    pure (!reads number, index)
  | number, text :: rest, line, index => do
    let got ← getline fails line text
    if reads number then
      free got.2
      pure (false, index)
    else if got.1 then
      cutLine got.2
      match ← parseDbRow fails junk miniz got.2 with
      | none => loadFrom reads (number + 1) rest got.2 index
      | some parsed => do
        let stored ← rowIndexPut fails index parsed
        freeDbRow parsed
        if stored.1 then loadFrom reads (number + 1) rest got.2 stored.2
        else
          free got.2
          pure (false, stored.2)
    else
      free got.2
      pure (true, index)

/-- `load_latest_rows`: whether it returns `0`, and `*out`. -/
def loadLatestRows (reads : Nat → Bool) (content : Bytes) : Prog Block (Bool × IndexFields) :=
  loadFrom fails junk miniz reads 0 (lines content) none {}

/-- `load_latest_row`: none is its `-1`, and without a row it is `0`. -/
def loadLatestRow (reads : Nat → Bool) (key : CStr) (content : Bytes) :
    Prog Block (Option (Option RowFields)) := do
  let loaded ← loadLatestRows fails junk miniz reads content
  if loaded.1 then
    match ← rowIndexGet loaded.2 key with
    | none => do
      rowIndexFree loaded.2
      pure (some none)
    | some row => do
      let copied ← replaceRow fails {} row
      rowIndexFree loaded.2
      pure (if copied.1 then some (some copied.2) else none)
  else
    rowIndexFree loaded.2
    pure none

/-- `puts(row.value)` for a row that is live. -/
def shown (row : Row) (now : Int64) : Bytes :=
  if row.isLive now then row.value.bytes ++ [lf] else []

/-- `MODE_GET`: the status and the output. -/
def runGet (reads : Nat → Bool) (key : CStr) (now : Int64) (content : Bytes) :
    Prog Block (Nat × Bytes) := do
  match ← loadLatestRow fails junk miniz reads key content with
  | none => do
    free none
    free none
    pure (1, [])
  | some none => do
    free none
    free none
    pure (0, [])
  | some (some row) => do
    let value ← readStr row.value
    free row.key
    free row.value
    pure (0, shown ⟨key, value, row.expireAt⟩ now)

end Allocating

end StreamPipeline.Store.Memory
