import StreamPipeline.Store.Memory

/-!
# The blocks of the index

The two arrays of the index are blocks, and every used slot owns the two strings of its row. While
the index grows, the strings that are not moved yet belong to the old arrays and the others to the
new ones; the old arrays are freed without them. Whatever allocation fails, the index owns its
blocks again when a call returns.
-/

namespace StreamPipeline.Store.Memory

open Blocks Probing

/-- Owned blocks. -/
abbrev Cells := Multiset (Nat × Block)

/-- The block of a string. -/
def strBlock (text : CStr) : Block := .text (text.bytes ++ [0])

/-- A used slot with the blocks of its strings. -/
structure Slot where
  /-- The block of `key`. -/
  key : Nat
  /-- The block of `value`. -/
  value : Nat
  /-- The row. -/
  row : Row

/-- The fields of a used slot. -/
def Slot.fields (slot : Slot) : RowFields :=
  { key := some ⟨slot.key, 0⟩, value := some ⟨slot.value, 0⟩, expireAt := slot.row.expireAt }

/-- The strings of a used slot. -/
def Slot.cells (slot : Slot) : Cells :=
  {(slot.key, strBlock slot.row.key)} + {(slot.value, strBlock slot.row.value)}

/-- The fields of a slot; those of an unused one are zero. -/
def fieldsOf (slot : Option Slot) : RowFields := slot.elim {} Slot.fields

/-- The strings of a slot. -/
def cellsOf (slot : Option Slot) : Cells := slot.elim 0 Slot.cells

/-- The strings of all slots. -/
def strings (slots : List (Option Slot)) : Cells := (slots.map cellsOf).sum

/-- The slots without their blocks. -/
def table (slots : List (Option Slot)) : List (Option Row) :=
  slots.map fun slot => slot.map Slot.row

/-- The arrays of an index with their blocks. -/
structure Arrays where
  /-- The block of `rows`. -/
  rows : Nat
  /-- The block of `used`. -/
  used : Nat
  /-- The slots. -/
  slots : List (Option Slot)

namespace Arrays

/-- The two arrays. -/
def blocks (arrays : Arrays) : Cells :=
  {(arrays.rows, .rows (arrays.slots.map fieldsOf))} +
    {(arrays.used, .used (arrays.slots.map Option.isSome))}

/-- The fields of the index. -/
def fields (arrays : Arrays) (len : Nat) : IndexFields :=
  ⟨some ⟨arrays.rows, 0⟩, some ⟨arrays.used, 0⟩, len, arrays.slots.length⟩

end Arrays

/-- The fields of an index, the blocks it owns, and what they stand for. -/
inductive Stored : IndexFields → Cells → RowArrays → Prop where
  /-- No arrays. -/
  | blank : Stored {} 0 ⟨[], 0⟩
  /-- Two arrays and the strings of the slots. -/
  | placed (arrays : Arrays) (len : Nat) :
    Stored (arrays.fields len) (arrays.blocks + strings arrays.slots) ⟨table arrays.slots, len⟩

/-! ## Strings -/

/-- A pointer to a string in owned blocks. -/
def Points (own : Cells) (ptr : Option Ptr) (text : CStr) : Prop :=
  ∃ block offset bytes, ptr = some ⟨block, offset⟩ ∧ (block, Block.text bytes) ∈ own ∧
    0 ∈ bytes.drop offset ∧ CStr.ofBytes (bytes.drop offset) = text

/-- More blocks keep the string. -/
theorem Points.mono {own whole : Cells} {ptr : Option Ptr} {text : CStr}
    (points : Points own ptr text) (part : own ≤ whole) : Points whole ptr text := by
  obtain ⟨block, offset, bytes, place, member, ends, same⟩ := points
  exact ⟨block, offset, bytes, place, Multiset.mem_of_le part member, ends, same⟩

/-- A string ends at its terminator. -/
theorem ofBytes_terminated (bytes rest : Bytes) :
    CStr.ofBytes (bytes ++ 0 :: rest) = CStr.ofBytes bytes := by
  apply CStr.ext
  show (bytes ++ 0 :: rest).takeWhile _ = bytes.takeWhile _
  rw [List.takeWhile_append]
  split
  · rename_i whole
    rw [List.takeWhile_cons_of_neg (by simp), List.append_nil]
    exact ((List.takeWhile_prefix _).eq_of_length whole).symm
  · rfl

/-- A pointer to the start of a string's own block. -/
theorem points_strBlock {own : Cells} {block : Nat} {text : CStr}
    (member : (block, strBlock text) ∈ own) : Points own (some ⟨block, 0⟩) text :=
  ⟨block, 0, text.bytes ++ [0], rfl, member, by simp,
    (ofBytes_terminated text.bytes []).trans text.ofBytes_bytes⟩

/-- A string is read where a pointer leads. -/
theorem returns_readStr {own : Cells} {ptr : Option Ptr} {text : CStr}
    (points : Points own ptr text) : Returns (readStr ptr) own text := by
  obtain ⟨block, offset, bytes, rfl, member, ends, rfl⟩ := points
  apply (returns_load member).bind
  show Returns (if 0 ∈ bytes.drop offset then _ else _) own _
  rw [if_pos ends]
  exact .pure ⟨rfl, rfl⟩

/-- A copy of a string, or none because a call fails. -/
theorem meets_strdup (fails : Nat → Bool) {own : Cells} {ptr : Option Ptr} {text : CStr}
    (points : Points own ptr text) :
    Meets (strdup fails ptr) own fun result left =>
      (result = none ∧ left = own ∧ ∃ call, fails call = true) ∨
        ∃ block, result = some ⟨block, 0⟩ ∧ left = {(block, strBlock text)} + own := by
  apply (returns_readStr points).bind
  apply (meets_alloc fails (strBlock text)).within (zero_add own).symm
  rintro result left (⟨rfl, rfl, failed⟩ | ⟨block, rfl, rfl⟩)
  · exact .inl ⟨rfl, zero_add own, failed⟩
  · exact .inr ⟨block, rfl, rfl⟩

/-! ## Slots -/

/-- The strings of one slot among those of all. -/
theorem strings_set {slots : List (Option Slot)} {i : Nat} {slot : Option Slot}
    (place : slots[i]? = some slot) :
    ∃ others, strings slots = others + cellsOf slot ∧
      ∀ new, strings (slots.set i new) = others + cellsOf new := by
  induction slots generalizing i with
  | nil => simp at place
  | cons first slots ih =>
    cases i with
    | zero =>
      rw [List.getElem?_cons_zero, Option.some.injEq] at place
      subst place
      exact ⟨strings slots, add_comm _ _, fun new => add_comm _ _⟩
    | succ i =>
      obtain ⟨others, here, each⟩ := ih (List.getElem?_cons_succ ▸ place)
      refine ⟨cellsOf first + others, ?_, fun new => ?_⟩
      · rw [add_assoc, ← here]
        rfl
      · rw [add_assoc, ← each new]
        rfl

/-- The strings of the slots from one on. -/
theorem strings_drop {slots : List (Option Slot)} {i : Nat} {slot : Option Slot}
    (place : slots[i]? = some slot) :
    strings (slots.drop i) = cellsOf slot + strings (slots.drop (i + 1)) := by
  obtain ⟨inside, rfl⟩ := List.getElem?_eq_some_iff.mp place
  rw [List.drop_eq_getElem_cons inside]
  rfl

/-- The strings of a used slot are among those of all. -/
theorem cells_le_strings {slots : List (Option Slot)} {i : Nat} {slot : Slot}
    (place : slots[i]? = some (some slot)) : slot.cells ≤ strings slots := by
  obtain ⟨others, here, -⟩ := strings_set place
  rw [here]
  exact Multiset.le_add_left _ _

/-- The key of a used slot is its row's. -/
theorem Slot.points_key (slot : Slot) : Points slot.cells slot.fields.key slot.row.key :=
  points_strBlock (by simp [cells])

/-- The value of a used slot is its row's. -/
theorem Slot.points_value (slot : Slot) : Points slot.cells slot.fields.value slot.row.value :=
  points_strBlock (by simp [cells])

/-- An item of the array `used`. -/
theorem Arrays.returns_used (arrays : Arrays) (len : Nat) {own : Cells} {used : List Bool}
    (member : (arrays.used, Block.used used) ∈ own) {i : Nat} {flag : Bool}
    (place : used[i]? = some flag) : Returns (readUsed (arrays.fields len) i) own flag := by
  apply (returns_load member).bind
  show Returns (item used[i]?) own flag
  rw [place]
  exact .pure ⟨rfl, rfl⟩

/-- An item of the array `rows`. -/
theorem Arrays.returns_rows (arrays : Arrays) (len : Nat) {own : Cells} {rows : List RowFields}
    (member : (arrays.rows, Block.rows rows) ∈ own) {i : Nat} {row : RowFields}
    (place : rows[i]? = some row) : Returns (readRow (arrays.fields len) i) own row := by
  apply (returns_load member).bind
  show Returns (item rows[i]?) own row
  rw [place]
  exact .pure ⟨rfl, rfl⟩

/-- A slot is marked when it is used. -/
theorem Arrays.returns_readUsed (arrays : Arrays) (len : Nat) {own : Cells}
    (part : arrays.blocks ≤ own) {i : Nat} {slot : Option Slot}
    (place : arrays.slots[i]? = some slot) :
    Returns (readUsed (arrays.fields len) i) own slot.isSome := by
  have member : (arrays.used, Block.used (arrays.slots.map Option.isSome)) ∈ own :=
    Multiset.mem_of_le part (by simp [blocks])
  apply arrays.returns_used len member
  rw [List.getElem?_map, place]
  rfl

/-- A slot has the fields of its row. -/
theorem Arrays.returns_readRow (arrays : Arrays) (len : Nat) {own : Cells}
    (part : arrays.blocks ≤ own) {i : Nat} {slot : Option Slot}
    (place : arrays.slots[i]? = some slot) :
    Returns (readRow (arrays.fields len) i) own (fieldsOf slot) := by
  have member : (arrays.rows, Block.rows (arrays.slots.map fieldsOf)) ∈ own :=
    Multiset.mem_of_le part (by simp [blocks])
  apply arrays.returns_rows len member
  rw [List.getElem?_map, place]
  rfl

/-- A search in memory stops where the search in the slots does. -/
theorem Arrays.returns_findFrom (arrays : Arrays) (len : Nat) {own : Cells}
    (part : arrays.blocks + strings arrays.slots ≤ own)
    (power : ∃ bits, arrays.slots.length = 2 ^ bits) {key : CStr} {fuel idx : Nat}
    {stop : Nat × Bool} (inside : idx < arrays.slots.length)
    (found : probe Row.key (table arrays.slots) key fuel idx = some stop) :
    Returns (findFrom (arrays.fields len) key fuel idx) own stop := by
  have blocks : arrays.blocks ≤ own := le_trans (Multiset.le_add_right _ _) part
  induction fuel generalizing idx with
  | zero => contradiction
  | succ fuel ih =>
    have place : arrays.slots[idx]? = some arrays.slots[idx] := List.getElem?_eq_getElem inside
    generalize arrays.slots[idx] = slot at place
    have row : (table arrays.slots)[idx]?.join = slot.map Slot.row := by
      rw [table, List.getElem?_map, place]
      rfl
    rw [probe, row] at found
    apply (arrays.returns_readUsed len blocks place).bind
    cases slot with
    | none => exact .pure ⟨Option.some.inj found, rfl⟩
    | some slot =>
      have strings : slot.cells ≤ own :=
        le_trans (cells_le_strings place) (le_trans (Multiset.le_add_left _ _) part)
      apply (arrays.returns_readRow len blocks place).bind
      apply (returns_readStr (slot.points_key.mono strings)).bind
      simp only [Option.map_some] at found
      by_cases same : slot.row.key = key
      · rw [if_pos same] at found ⊢
        exact .pure ⟨Option.some.inj found, rfl⟩
      · rw [if_neg same] at found ⊢
        have length : (table arrays.slots).length = arrays.slots.length := List.length_map _
        rw [length] at found
        have next : wrap arrays.slots.length (idx + 1) < arrays.slots.length := by
          rw [wrap_eq_mod power]
          exact Nat.mod_lt _ (by omega)
        exact ih next found

/-- `find_slot` on the arrays of a table. -/
theorem Arrays.returns_findSlot (arrays : Arrays) (len : Nat) {own : Cells}
    (part : arrays.blocks + strings arrays.slots ≤ own) {buckets : Buckets}
    (same : table arrays.slots = buckets.slots) (key : CStr) :
    Returns (findSlot (arrays.fields len) key) own (buckets.find key) := by
  have length : arrays.slots.length = buckets.slots.length := by
    rw [← same]
    exact (List.length_map _).symm
  have found := findSlot_table buckets key
  rw [← same] at found
  have inside : wrap arrays.slots.length (hashKey key).toNat < arrays.slots.length := by
    rw [length]
    exact buckets.wrap_lt _
  have power : ∃ bits, arrays.slots.length = 2 ^ bits := by
    rw [length]
    exact buckets.power
  rw [Store.findSlot, table, List.length_map] at found
  exact arrays.returns_findFrom len part power inside found

/-! ## Growing -/

/-- A slot of the array `rows` is written. -/
theorem Arrays.leaves_writeRow (arrays : Arrays) (len : Nat) {rows : List RowFields} {i : Nat}
    (inside : i < rows.length) (row : RowFields) :
    Leaves (writeRow (arrays.fields len) i row) {(arrays.rows, .rows rows)}
      {(arrays.rows, .rows (rows.set i row))} := by
  have member : (arrays.rows, Block.rows rows) ∈ ({(arrays.rows, .rows rows)} : Cells) := by simp
  apply (returns_load member).bind
  show Leaves (if i < rows.length then _ else _) _ _
  rw [if_pos inside]
  exact leaves_store _ _ _

/-- A slot is marked as used. -/
theorem Arrays.leaves_setUsed (arrays : Arrays) (len : Nat) {used : List Bool} {i : Nat}
    (inside : i < used.length) :
    Leaves (setUsed (arrays.fields len) i) {(arrays.used, .used used)}
      {(arrays.used, .used (used.set i true))} := by
  have member : (arrays.used, Block.used used) ∈ ({(arrays.used, .used used)} : Cells) := by simp
  apply (returns_load member).bind
  show Leaves (if i < used.length then _ else _) _ _
  rw [if_pos inside]
  exact leaves_store _ _ _

/-- The arrays with a row in a slot. -/
def Arrays.set (arrays : Arrays) (i : Nat) (slot : Slot) : Arrays :=
  { arrays with slots := arrays.slots.set i (some slot) }

/-- The fields do not change with a slot. -/
theorem Arrays.fields_set (arrays : Arrays) (i : Nat) (slot : Slot) (len : Nat) :
    (arrays.set i slot).fields len = arrays.fields len := by
  simp [fields, set]

/-- A row is stored in an unused slot. -/
theorem Arrays.meets_fill (arrays : Arrays) (len : Nat) {i : Nat} (slot : Slot)
    (inside : i < arrays.slots.length) {rest : Cells} {α : Type} {next : Prog Block α}
    {last : α → Cells → Prop} (follows : Meets next ((arrays.set i slot).blocks + rest) last) :
    Meets (writeRow (arrays.fields len) i slot.fields >>= fun _ =>
      setUsed (arrays.fields len) i >>= fun _ => next) (arrays.blocks + rest) last := by
  have rows : (arrays.slots.map fieldsOf).set i slot.fields =
      (arrays.set i slot).slots.map fieldsOf := (List.map_set (a := some slot)).symm
  have used : (arrays.slots.map Option.isSome).set i true =
      (arrays.set i slot).slots.map Option.isSome := (List.map_set (a := some slot)).symm
  apply (arrays.leaves_writeRow len (by simpa using inside) slot.fields).bind (add_assoc _ _ _)
  apply (arrays.leaves_setUsed len (by simpa using inside)).bind (add_left_comm _ _ _)
  rw [rows, used, add_left_comm, ← add_assoc]
  exact follows

/-- What a list has somewhere already changes nothing there. -/
theorem set_same {α : Type} {list : List α} {i : Nat} {item : α} (place : list[i]? = some item) :
    list.set i item = list := by
  obtain ⟨inside, rfl⟩ := List.getElem?_eq_some_iff.mp place
  exact List.set_getElem_self inside

/-- A row is stored in a used slot. -/
theorem Arrays.meets_replace (arrays : Arrays) (len : Nat) {i : Nat} {old : Slot} (slot : Slot)
    (place : arrays.slots[i]? = some (some old)) {rest : Cells} {α : Type} {next : Prog Block α}
    {last : α → Cells → Prop} (follows : Meets next ((arrays.set i slot).blocks + rest) last) :
    Meets (writeRow (arrays.fields len) i slot.fields >>= fun _ => next) (arrays.blocks + rest)
      last := by
  have inside := (List.getElem?_eq_some_iff.mp place).1
  have rows : (arrays.slots.map fieldsOf).set i slot.fields =
      (arrays.set i slot).slots.map fieldsOf := (List.map_set (a := some slot)).symm
  have flag : (arrays.slots.map Option.isSome)[i]? = some true := by
    rw [List.getElem?_map, place]
    rfl
  have used : arrays.slots.map Option.isSome = (arrays.set i slot).slots.map Option.isSome :=
    (set_same flag).symm.trans (List.map_set (a := some slot)).symm
  apply (arrays.leaves_writeRow len (by simpa using inside) slot.fields).bind (add_assoc _ _ _)
  rw [rows, used, ← add_assoc]
  exact follows

/-- The fields of a slot are written back. -/
theorem Arrays.meets_restore (arrays : Arrays) (len : Nat) {i : Nat} {slot : Option Slot}
    (place : arrays.slots[i]? = some slot) {rest : Cells} {α : Type} {next : Prog Block α}
    {last : α → Cells → Prop} (follows : Meets next (arrays.blocks + rest) last) :
    Meets (writeRow (arrays.fields len) i (fieldsOf slot) >>= fun _ => next)
      (arrays.blocks + rest) last := by
  have inside := (List.getElem?_eq_some_iff.mp place).1
  have row : (arrays.slots.map fieldsOf)[i]? = some (fieldsOf slot) := by
    rw [List.getElem?_map, place]
    rfl
  apply (arrays.leaves_writeRow len (by simpa using inside) _).bind (add_assoc _ _ _)
  rw [set_same row, ← add_assoc]
  exact follows

/-- Both arrays of unused slots, or neither because a call fails. -/
theorem meets_allocateBuckets (fails : Nat → Bool) (cap : Nat) :
    Meets (allocateBuckets fails cap) 0 fun result left =>
      (result = none ∧ left = 0 ∧ ∃ call, fails call = true) ∨
        ∃ arrays : Arrays, arrays.slots = List.replicate cap none ∧
          result = some (arrays.fields 0) ∧ left = arrays.blocks := by
  apply (meets_alloc fails _).andThen
  rintro rows left (⟨rfl, rfl, failed⟩ | ⟨rows, rfl, rfl⟩)
  · apply (meets_alloc fails _).andThen
    rintro used left (⟨rfl, rfl, -⟩ | ⟨used, rfl, rfl⟩)
    · apply leaves_free_null.bind (add_zero 0).symm
      apply leaves_free_null.bind (add_zero _).symm
      exact .pure (.inl ⟨rfl, rfl, failed⟩)
    · apply leaves_free_null.bind (zero_add _).symm
      apply (leaves_free used _).bind (add_comm _ _)
      exact .pure (.inl ⟨rfl, rfl, failed⟩)
  · apply (meets_alloc fails _).bind (zero_add _).symm
    rintro used left (⟨rfl, rfl, failed⟩ | ⟨used, rfl, rfl⟩)
    · apply (leaves_free rows _).bind (add_comm _ _)
      apply leaves_free_null.bind (add_zero _).symm
      exact .pure (.inl ⟨rfl, rfl, failed⟩)
    · refine .pure (.inr ⟨⟨rows, used, List.replicate cap none⟩, rfl, ?_, ?_⟩)
      · simp [Arrays.fields]
      · rw [add_comm]
        simp [Arrays.blocks, fieldsOf]

/-- The rows of slots. -/
def rowsIn (slots : List (Option Slot)) : List Row := (table slots).filterMap id

/-- The rows from a slot on. -/
theorem rowsIn_drop {slots : List (Option Slot)} {i : Nat} {slot : Option Slot}
    (place : slots[i]? = some slot) :
    rowsIn (slots.drop i) = (slot.map Slot.row).toList ++ rowsIn (slots.drop (i + 1)) := by
  obtain ⟨inside, rfl⟩ := List.getElem?_eq_some_iff.mp place
  rw [List.drop_eq_getElem_cons inside, rowsIn, table, List.map_cons]
  cases slots[i] <;> rfl

/-- A search for a key that no slot has stops at an unused one. -/
theorem unused_slot {slots : List (Option Slot)} {buckets : Buckets}
    (same : table slots = buckets.slots) {key : CStr} (absent : buckets.get key = none) :
    (buckets.find key).1 < slots.length ∧ slots[(buckets.find key).1]? = some none := by
  have stopped := buckets.find_lt key
  rw [← same, table, List.length_map] at stopped
  refine ⟨stopped, ?_⟩
  rcases buckets.find_cases key with ⟨-, empty⟩ | ⟨found, -⟩
  · rw [← same, table, List.getElem?_map, List.getElem?_eq_getElem stopped] at empty
    rw [List.getElem?_eq_getElem stopped]
    cases held : slots[(buckets.find key).1] with
    | none => rfl
    | some slot =>
      rw [held] at empty
      contradiction
  · rw [Table.find_of_get_none absent] at found
    contradiction

/-- A row in the bucket of its key is stored in the table. -/
theorem Arrays.table_set (arrays : Arrays) {buckets : Buckets}
    (same : table arrays.slots = buckets.slots) (slot : Slot) (room : 1 < buckets.free) :
    table (arrays.set (buckets.find slot.row.key).1 slot).slots =
      (buckets.put slot.row room).slots := by
  show _ = buckets.slots.set (buckets.find slot.row.key).1 (some slot.row)
  rw [← same]
  exact List.map_set

/-- A stored row leaves the keys of the rows behind it unused. -/
theorem absent_put {buckets : Buckets} {row : Row} {rows : List Row} (room : 1 < buckets.free)
    (distinct : ((row :: rows).map Row.key).Nodup)
    (absent : ∀ other ∈ row :: rows, buckets.get other.key = none) :
    ∀ other ∈ rows, (buckets.put row room).get other.key = none := by
  rw [List.map_cons, List.nodup_cons] at distinct
  intro other member
  have apart : row.key ≠ other.key := by
    intro equal
    exact distinct.1 (equal ▸ List.mem_map_of_mem member)
  rw [Table.get_put, if_neg apart]
  exact absent other (List.mem_cons_of_mem row member)

/-- One row is moved with its strings, which the old arrays own no longer. -/
theorem Arrays.meets_moveRow (old : Arrays) (oldLen : Nat) (grown : Arrays) (len : Nat) {i : Nat}
    {slot : Slot} (place : old.slots[i]? = some (some slot)) {buckets : Buckets}
    (same : table grown.slots = buckets.slots) (unused : buckets.get slot.row.key = none)
    {behind : Cells} {α : Type} {next : Prog Block α} {last : α → Cells → Prop}
    (follows : Meets next (old.blocks + behind +
      ((grown.set (buckets.find slot.row.key).1 slot).blocks +
        strings (grown.set (buckets.find slot.row.key).1 slot).slots)) last) :
    Meets (readRow (old.fields oldLen) i >>= fun row => readStr row.key >>= fun key =>
      findSlot (grown.fields len) key >>= fun stop => writeRow (grown.fields len) stop.1 row >>=
        fun _ => setUsed (grown.fields len) stop.1 >>= fun _ => next)
      (old.blocks + (slot.cells + behind) + (grown.blocks + strings grown.slots)) last := by
  have oldLe : old.blocks ≤
      old.blocks + (slot.cells + behind) + (grown.blocks + strings grown.slots) := by
    rw [add_assoc]
    exact Multiset.le_add_right _ _
  have grownLe : grown.blocks + strings grown.slots ≤
      old.blocks + (slot.cells + behind) + (grown.blocks + strings grown.slots) :=
    Multiset.le_add_left _ _
  have slotLe : slot.cells ≤
      old.blocks + (slot.cells + behind) + (grown.blocks + strings grown.slots) := by
    apply le_trans _ (Multiset.le_add_right _ _)
    apply le_trans _ (Multiset.le_add_left _ _)
    exact Multiset.le_add_right _ _
  apply (old.returns_readRow oldLen oldLe place).bind
  apply (returns_readStr (slot.points_key.mono slotLe)).bind
  apply (grown.returns_findSlot len grownLe same slot.row.key).bind
  obtain ⟨inside, empty⟩ := unused_slot same unused
  generalize (buckets.find slot.row.key).1 = bucket at inside empty follows
  obtain ⟨others, here, each⟩ := strings_set empty
  have moved : old.blocks + (slot.cells + behind) + (grown.blocks + strings grown.slots) =
      grown.blocks + (old.blocks + behind + (others + slot.cells)) := by
    rw [here, cellsOf, Option.elim_none, add_zero]
    abel
  have filled : strings (grown.set bucket slot).slots = others + slot.cells := each (some slot)
  have joined : (grown.set bucket slot).blocks + (old.blocks + behind + (others + slot.cells)) =
      old.blocks + behind +
        ((grown.set bucket slot).blocks + strings (grown.set bucket slot).slots) := by
    rw [filled]
    abel
  rw [moved]
  apply grown.meets_fill len slot inside
  rw [joined]
  exact follows

/-- Moving the rows from a slot on puts them into the new arrays, with their strings. -/
theorem Arrays.meets_moveFrom (old : Arrays) (oldLen : Nat) {left i : Nat}
    (whole : i + left = old.slots.length) (grown : Arrays) (len : Nat) {buckets : Buckets}
    (same : table grown.slots = buckets.slots)
    (room : (rowsIn (old.slots.drop i)).length < buckets.free)
    (distinct : ((rowsIn (old.slots.drop i)).map Row.key).Nodup)
    (absent : ∀ row ∈ rowsIn (old.slots.drop i), buckets.get row.key = none) :
    Meets (moveFrom (old.fields oldLen) left i (grown.fields len))
      (old.blocks + strings (old.slots.drop i) + (grown.blocks + strings grown.slots))
      fun result kept => ∃ arrays : Arrays,
        result = arrays.fields (len + (rowsIn (old.slots.drop i)).length) ∧
        kept = old.blocks + (arrays.blocks + strings arrays.slots) ∧
        table arrays.slots = (buckets.putAll (rowsIn (old.slots.drop i)) room).slots := by
  induction left generalizing i grown len buckets with
  | zero =>
    have done : old.slots.drop i = [] := List.drop_of_length_le (by omega)
    simp only [done]
    refine .pure ⟨grown, rfl, ?_, same⟩
    rw [strings, List.map_nil, List.sum_nil, add_zero]
  | succ left ih =>
    have inside : i < old.slots.length := by omega
    have place : old.slots[i]? = some old.slots[i] := List.getElem?_eq_getElem inside
    generalize old.slots[i] = slot at place
    have cells := strings_drop place
    have rows := rowsIn_drop place
    have blocks : old.blocks ≤
        old.blocks + strings (old.slots.drop i) + (grown.blocks + strings grown.slots) := by
      rw [add_assoc]
      exact Multiset.le_add_right _ _
    apply (old.returns_readUsed oldLen blocks place).bind
    cases slot with
    | none =>
      simp only [Option.map_none, Option.toList_none, List.nil_append] at rows
      simp only [rows] at room distinct absent ⊢
      rw [cells, cellsOf, Option.elim_none, zero_add]
      exact ih (by omega) grown len same room distinct absent
    | some slot =>
      simp only [Option.map_some, Option.toList_some, List.singleton_append] at rows
      rw [cellsOf, Option.elim_some] at cells
      simp only [rows] at room distinct absent ⊢
      rw [cells]
      have roomy : 1 < buckets.free := by
        rw [List.length_cons] at room
        omega
      have later := buckets.free_put slot.row roomy
      have stored := grown.table_set same slot roomy
      have missing := absent_put roomy distinct absent
      have fits : (rowsIn (old.slots.drop (i + 1))).length <
          (buckets.put slot.row roomy).free := by
        rw [List.length_cons] at room
        omega
      have rest := ih (by omega) (grown.set (buckets.find slot.row.key).1 slot) (len + 1) stored
        fits (List.nodup_cons.mp distinct).2 missing
      rw [Arrays.fields_set] at rest
      apply old.meets_moveRow oldLen grown len place same (absent slot.row List.mem_cons_self)
      apply rest.weaken
      rintro result kept ⟨arrays, rfl, rfl, ends⟩
      refine ⟨arrays, congrArg arrays.fields ?_, rfl, ends⟩
      rw [List.length_cons]
      omega

/-- The rows of an index are moved to new arrays, and the old ones are freed without them. -/
theorem Arrays.meets_moveAll (old : Arrays) (len : Nat) (grown : Arrays) {cap : Nat}
    (power : ∃ bits, cap = 2 ^ bits) (blank : grown.slots = List.replicate cap none)
    (room : (rowsIn old.slots).length < cap)
    (distinct : ((rowsIn old.slots).map Row.key).Nodup) {after : RowArrays}
    (moved : moveRows (table old.slots) (emptyBuckets cap) = some after) :
    Meets (moveFrom (old.fields len) old.slots.length 0 (grown.fields 0))
      (old.blocks + strings old.slots + grown.blocks) fun result kept => ∃ arrays : Arrays,
        result = arrays.fields after.len ∧
        kept = old.blocks + (arrays.blocks + strings arrays.slots) ∧
        table arrays.slots = after.slots := by
  have unfilled : (rowsIn old.slots).length <
      (Table.blank Row.key (fun key => (hashKey key).toNat) cap power).free := by
    rwa [Table.free_blank]
  have whole := (moveRows_blank (table old.slots) power room).symm.trans moved
  have same : table grown.slots = (Table.blank Row.key (fun key => (hashKey key).toNat) cap
      power).slots := by
    rw [blank, table, List.map_replicate]
    rfl
  have none : strings grown.slots = 0 := by
    rw [blank, strings, List.map_replicate, List.sum_replicate]
    exact nsmul_zero cap
  have runs := old.meets_moveFrom len (Nat.zero_add _) grown 0 same unfilled distinct
    fun row _ => Table.get_blank _ _
  rw [none, add_zero] at runs
  rw [← Option.some.inj whole]
  apply runs.weaken
  rintro result kept ⟨arrays, rfl, rfl, ends⟩
  exact ⟨arrays, congrArg arrays.fields (Nat.zero_add _), rfl, ends⟩

/-- The capacity decides whether the arrays are replaced. -/
theorem rowIndexGrow_eq (fails : Nat → Bool) {fields : IndexFields} {cap : Nat}
    (same : nextCap (fields.len + 1) (startCap fields.cap) (startCap_pos fields.cap) = cap) :
    rowIndexGrow fails fields (fields.len + 1) =
      if cap = fields.cap then pure (some fields) else growTo fails fields cap := by
  subst same
  rfl

/-- The arrays an index has owns nothing more when its own two are freed. -/
theorem Arrays.meets_freeBlocks (old : Arrays) (len : Nat) {rest : Cells} {α : Type}
    {next : Prog Block α} {last : α → Cells → Prop} (follows : Meets next rest last) :
    Meets (free (old.fields len).rows >>= fun _ => free (old.fields len).used >>= fun _ => next)
      (old.blocks + rest) last := by
  apply (leaves_free old.rows _).bind (add_assoc _ _ _)
  rw [zero_add]
  apply (leaves_free old.used _).bind rfl
  rw [zero_add]
  exact follows

/-- The first arrays of an index. -/
theorem meets_growTo_blank (fails : Nat → Bool) (cap : Nat) :
    Meets (growTo fails {} cap) 0 fun result left =>
      (result = none ∧ left = 0 ∧ ∃ call, fails call = true) ∨
        ∃ arrays : Arrays, result = some (arrays.fields 0) ∧
          left = arrays.blocks + strings arrays.slots ∧
          table arrays.slots = List.replicate cap none := by
  apply (meets_allocateBuckets fails cap).andThen
  rintro result left (⟨rfl, rfl, failed⟩ | ⟨arrays, blank, rfl, rfl⟩)
  · exact .pure (.inl ⟨rfl, rfl, failed⟩)
  · show Meets (free none >>= fun _ => free none >>= fun _ => pure (some (arrays.fields 0))) _ _
    apply leaves_free_null.bind (zero_add _).symm
    apply leaves_free_null.bind rfl
    have empty : strings arrays.slots = 0 := by
      rw [blank, strings, List.map_replicate, List.sum_replicate]
      exact nsmul_zero _
    refine .pure (.inr ⟨arrays, rfl, ?_, ?_⟩)
    · rw [empty, add_zero, zero_add]
    · rw [blank, table, List.map_replicate]
      rfl

/-- Larger arrays for an index that has some. -/
theorem Arrays.meets_growTo (fails : Nat → Bool) (old : Arrays) (len : Nat) {cap : Nat}
    (power : ∃ bits, cap = 2 ^ bits) (room : (rowsIn old.slots).length < cap)
    (distinct : ((rowsIn old.slots).map Row.key).Nodup) {after : RowArrays}
    (moved : moveRows (table old.slots) (emptyBuckets cap) = some after) :
    Meets (growTo fails (old.fields len) cap) (old.blocks + strings old.slots) fun result left =>
      (result = none ∧ left = old.blocks + strings old.slots ∧ ∃ call, fails call = true) ∨
        ∃ arrays : Arrays, result = some (arrays.fields after.len) ∧
          left = arrays.blocks + strings arrays.slots ∧ table arrays.slots = after.slots := by
  apply (meets_allocateBuckets fails cap).bind (zero_add _).symm
  rintro result left (⟨rfl, rfl, failed⟩ | ⟨arrays, blank, rfl, rfl⟩)
  · exact .pure (.inl ⟨rfl, zero_add _, failed⟩)
  · rw [add_comm arrays.blocks]
    apply (old.meets_moveAll len arrays power blank room distinct moved).andThen
    rintro result left ⟨filled, rfl, rfl, ends⟩
    apply old.meets_freeBlocks len
    exact .pure (.inr ⟨filled, rfl, rfl, ends⟩)

/-- `row_index_grow` on the arrays of an index. -/
theorem meets_rowIndexGrow (fails : Nat → Bool) {fields : IndexFields} {own : Cells}
    {index : RowIndex} (stored : Stored fields own index.arrays) :
    Meets (rowIndexGrow fails fields (fields.len + 1)) own fun result left =>
      (result = none ∧ left = own ∧ Store.rowIndexGrow true index = none ∧
          ∃ call, fails call = true) ∨
        ∃ (grown : Grown index) (arrays : Arrays), Store.rowIndexGrow false index = some grown ∧
          table arrays.slots = grown.table.slots ∧ result = some (arrays.fields index.len) ∧
          left = arrays.blocks + strings arrays.slots := by
  obtain ⟨grown, grow⟩ := Option.isSome_iff_exists.mp (rowIndexGrow_none index)
  have kept := growArrays_arrays false index
  have refused := growArrays_arrays true index
  have spec := index.grownCap_spec
  have rows := index.filterMap_slots
  have distinct := index.rows_nodup
  rw [← rows.1] at distinct
  have count : (index.arrays.slots.filterMap id).length = index.len := by rw [rows.1, rows.2]
  have len : index.arrays.len = index.len := rfl
  rw [grow, Option.map_some, growArrays] at kept
  rw [growArrays] at refused
  simp only [grow]
  generalize index.arrays = arr at stored kept refused spec distinct count len
  cases stored with
  | blank =>
    have grows : RowArrays.grownCap ⟨[], 0⟩ ≠ ([] : List (Option Row)).length := by
      rw [List.length_nil]
      omega
    rw [if_neg grows] at kept refused
    have shape : rowIndexGrow fails {} (0 + 1) = growTo fails {} (RowArrays.grownCap ⟨[], 0⟩) :=
      (rowIndexGrow_eq fails rfl).trans (if_neg grows)
    show Meets (rowIndexGrow fails {} (0 + 1)) 0 _
    rw [shape]
    apply (meets_growTo_blank fails _).weaken
    rintro result left (⟨rfl, rfl, failed⟩ | ⟨arrays, rfl, rfl, ends⟩)
    · refine .inl ⟨rfl, rfl, ?_, failed⟩
      exact Option.map_eq_none_iff.mp (Option.some.inj refused).symm
    · have moved := Option.some.inj (Option.some.inj kept)
      refine .inr ⟨grown, arrays, rfl, ?_, ?_, rfl⟩
      · rw [← (RowArrays.mk.inj moved).1]
        exact ends
      · rw [← len]
  | placed old number =>
    have slots : (table old.slots).length = old.slots.length := List.length_map _
    have cap : nextCap (number + 1) (startCap old.slots.length) (startCap_pos _) =
        RowArrays.grownCap ⟨table old.slots, number⟩ := by simp [RowArrays.grownCap, table]
    have counted : number = index.len := len
    have shape := @rowIndexGrow_eq fails (old.fields number) _ cap
    show Meets (rowIndexGrow fails (old.fields number) (number + 1)) _ _
    rw [show rowIndexGrow fails (old.fields number) (number + 1) = _ from shape]
    simp only [slots] at kept refused
    by_cases grows : RowArrays.grownCap ⟨table old.slots, number⟩ = old.slots.length
    · rw [if_pos grows] at kept
      rw [if_pos (show _ = (old.fields number).cap from grows)]
      have same := Option.some.inj (Option.some.inj kept)
      refine .pure (.inr ⟨grown, old, rfl, (RowArrays.mk.inj same).1, ?_, rfl⟩)
      rw [counted]
    · rw [if_neg grows] at kept refused
      rw [if_neg (show ¬_ = (old.fields number).cap from grows)]
      obtain ⟨after, moved, same⟩ := Option.map_eq_some_iff.mp kept
      have room : (rowsIn old.slots).length < RowArrays.grownCap ⟨table old.slots, number⟩ := by
        have all : (rowsIn old.slots).length = index.len := count
        omega
      apply (old.meets_growTo fails number spec.1 room distinct moved).weaken
      rintro result left (⟨rfl, rfl, failed⟩ | ⟨filled, rfl, rfl, ends⟩)
      · refine .inl ⟨rfl, rfl, ?_, failed⟩
        exact Option.map_eq_none_iff.mp (Option.some.inj refused).symm
      · rw [Option.some.inj same] at ends ⊢
        exact .inr ⟨grown, filled, rfl, ends, rfl, rfl⟩

/-! ## Storing -/

/-- The strings of a slot are freed. -/
theorem meets_freeStrings (slot : Option Slot) {rest : Cells} {α : Type} {next : Prog Block α}
    {last : α → Cells → Prop} (follows : Meets next rest last) :
    Meets (free (fieldsOf slot).key >>= fun _ => free (fieldsOf slot).value >>= fun _ => next)
      (cellsOf slot + rest) last := by
  cases slot with
  | none =>
    show Meets (free none >>= fun _ => free none >>= fun _ => next) (0 + rest) last
    apply leaves_free_null.bind rfl
    apply leaves_free_null.bind rfl
    rw [zero_add]
    exact follows
  | some slot =>
    apply (leaves_free slot.key _).bind (add_assoc _ _ _)
    rw [zero_add]
    apply (leaves_free slot.value _).bind rfl
    rw [zero_add]
    exact follows

/-- A copied row replaces the strings of a slot, or a call fails and they stay. -/
theorem meets_replaceRow (fails : Nat → Bool) (dst : Option Slot) {src : RowFields} {row : Row}
    {own : Cells} (key : Points own src.key row.key) (value : Points own src.value row.value)
    (expireAt : src.expireAt = row.expireAt) :
    Meets (replaceRow fails (fieldsOf dst) src) (own + cellsOf dst) fun result left =>
      (result = (false, fieldsOf dst) ∧ left = own + cellsOf dst ∧ ∃ call, fails call = true) ∨
        ∃ slot : Slot, slot.row = row ∧ result = (true, slot.fields) ∧
          left = own + slot.cells := by
  have part : own ≤ own + cellsOf dst := Multiset.le_add_right _ _
  apply (meets_strdup fails (key.mono part)).andThen
  rintro key left (⟨rfl, rfl, failed⟩ | ⟨key, rfl, rfl⟩)
  · apply (meets_strdup fails (value.mono part)).andThen
    rintro value left (⟨rfl, rfl, -⟩ | ⟨value, rfl, rfl⟩)
    · apply leaves_free_null.bind (zero_add _).symm
      apply leaves_free_null.bind rfl
      rw [zero_add]
      exact .pure (.inl ⟨rfl, rfl, failed⟩)
    · apply leaves_free_null.bind (zero_add _).symm
      apply (leaves_free value _).bind (zero_add _)
      rw [zero_add]
      exact .pure (.inl ⟨rfl, rfl, failed⟩)
  · have more : own ≤ {(key, strBlock row.key)} + (own + cellsOf dst) :=
      le_trans part (Multiset.le_add_left _ _)
    apply (meets_strdup fails (value.mono more)).andThen
    rintro value left (⟨rfl, rfl, failed⟩ | ⟨value, rfl, rfl⟩)
    · apply (leaves_free key _).bind rfl
      rw [zero_add]
      apply leaves_free_null.bind (zero_add _).symm
      rw [zero_add]
      exact .pure (.inl ⟨rfl, rfl, failed⟩)
    · have moved : {(value, strBlock row.value)} +
          ({(key, strBlock row.key)} + (own + cellsOf dst)) =
            cellsOf dst + (own + Slot.cells ⟨key, value, row⟩) := by
        rw [Slot.cells]
        abel
      rw [moved]
      apply meets_freeStrings dst
      refine .pure (.inr ⟨⟨key, value, row⟩, rfl, ?_, rfl⟩)
      cases dst <;> simp [fieldsOf, Slot.fields, expireAt]

/-- What `row_index_put` leaves beside the strings it copied: the index that some failing calls
leave, with its blocks, and without failing allocations the one that has the row. -/
def AfterPut (fails : Nat → Bool) (source : Cells) (index : RowIndex) (row : Row)
    (result : Bool × IndexFields) (left : Cells) : Prop :=
  ∃ (faults : PutFaults) (kept : Cells) (after : RowArrays),
    left = source + kept ∧ Stored result.2 kept after ∧
    ((∀ call, fails call = false) → faults = ⟨false, false⟩) ∧
    match Store.rowIndexPut faults index row with
    | none => result.1 = false
    | some next => result.1 = true ∧ after = next.arrays

/-- A row that is not copied leaves the grown index. -/
theorem afterPut_uncopied {fails : Nat → Bool} {index : RowIndex} {grown : Grown index}
    (grow : Store.rowIndexGrow false index = some grown) (arrays : Arrays) (source : Cells)
    (row : Row) (failed : ∃ call, fails call = true) :
    AfterPut fails source index row (false, arrays.fields index.len)
      (arrays.blocks + (source + strings arrays.slots)) := by
  obtain ⟨call, failed⟩ := failed
  refine ⟨⟨false, true⟩, _, _, add_left_comm _ _ _, .placed arrays index.len, fun quiet => ?_, ?_⟩
  · rw [quiet call] at failed
    contradiction
  · rw [Store.rowIndexPut, grow]
    rfl

/-- A copied row in the bucket of its key is stored in the grown index. -/
theorem afterPut_copied {fails : Nat → Bool} {index : RowIndex} {grown : Grown index}
    (grow : Store.rowIndexGrow false index = some grown) {arrays : Arrays}
    (same : table arrays.slots = grown.table.slots) (source : Cells) (slot : Slot) :
    AfterPut fails source index slot.row
      (true, arrays.fields (index.len + if (grown.table.find slot.row.key).2 then 0 else 1))
      ((arrays.set (grown.table.find slot.row.key).1 slot).blocks +
        (source + strings (arrays.set (grown.table.find slot.row.key).1 slot).slots)) := by
  obtain ⟨after, put⟩ := rowIndexPut_none index slot.row
  obtain ⟨again, room, regrow, -, buckets, len⟩ := rowIndexPut_some put
  obtain rfl : again = grown := Option.some.inj (regrow.symm.trans grow)
  have filled : after.arrays = ⟨table (arrays.set (again.table.find slot.row.key).1 slot).slots,
      index.len + if (again.table.find slot.row.key).2 then 0 else 1⟩ := by
    have slots : table (arrays.set (again.table.find slot.row.key).1 slot).slots =
        (table arrays.slots).set (again.table.find slot.row.key).1 (some slot.row) := List.map_set
    rw [slots, same, RowIndex.arrays, buckets, len]
    rfl
  refine ⟨⟨false, false⟩, _, after.arrays, add_left_comm _ _ _, ?_, fun _ => rfl, ?_⟩
  · rw [filled, ← Arrays.fields_set arrays (again.table.find slot.row.key).1 slot]
    exact .placed _ _
  · rw [put]
    exact ⟨rfl, rfl⟩

/-- A search that finds a key stops at a used slot. -/
theorem used_slot {slots : List (Option Slot)} {buckets : Buckets}
    (same : table slots = buckets.slots) {key : CStr} (found : (buckets.find key).2 = true)
    {slot : Option Slot} (place : slots[(buckets.find key).1]? = some slot) :
    ∃ old, slot = some old := by
  rcases buckets.find_cases key with ⟨missing, -⟩ | ⟨-, entry, held, -⟩
  · rw [found] at missing
    contradiction
  · rw [← same, table, List.getElem?_map, place] at held
    obtain ⟨old, shape, -⟩ := Option.map_eq_some_iff.mp (Option.some.inj held)
    exact ⟨old, shape⟩

/-- `row_index_put` of a row whose strings are at hand. -/
theorem meets_rowIndexPut (fails : Nat → Bool) {fields : IndexFields} {own source : Cells}
    {index : RowIndex} (stored : Stored fields own index.arrays) {src : RowFields} {row : Row}
    (key : Points source src.key row.key) (value : Points source src.value row.value)
    (expireAt : src.expireAt = row.expireAt) :
    Meets (rowIndexPut fails fields src) (source + own) (AfterPut fails source index row) := by
  apply (meets_rowIndexGrow fails stored).bind (add_comm source own)
  rintro result left (⟨rfl, rfl, refused, call, failed⟩ | ⟨grown, arrays, grow, same, rfl, rfl⟩)
  · refine .pure ⟨⟨true, false⟩, _, index.arrays, add_comm _ _, stored, fun quiet => ?_, ?_⟩
    · rw [quiet call] at failed
      contradiction
    · rw [Store.rowIndexPut, refused]
  have part : arrays.blocks + strings arrays.slots ≤
      arrays.blocks + strings arrays.slots + source := Multiset.le_add_right _ _
  apply (returns_readStr (key.mono (Multiset.le_add_left _ _))).bind
  apply (arrays.returns_findSlot index.len part same row.key).bind
  have inside : (grown.table.find row.key).1 < arrays.slots.length := by
    have stops := grown.table.find_lt row.key
    rwa [← same, table, List.length_map] at stops
  have place := List.getElem?_eq_getElem inside
  generalize arrays.slots[(grown.table.find row.key).1] = slot at place
  obtain ⟨others, here, each⟩ := strings_set place
  apply (arrays.returns_readRow index.len (le_trans (Multiset.le_add_right _ _) part) place).bind
  have split : arrays.blocks + strings arrays.slots + source =
      arrays.blocks + others + source + cellsOf slot := by
    rw [here]
    abel
  have more : source ≤ arrays.blocks + others + source := Multiset.le_add_left _ _
  rw [split]
  apply (meets_replaceRow fails slot (key.mono more) (value.mono more) expireAt).andThen
  rintro result left (⟨rfl, rfl, failed⟩ | ⟨stored, rfl, rfl, rfl⟩)
  · have back : arrays.blocks + others + source + cellsOf slot =
        arrays.blocks + (source + strings arrays.slots) := by
      rw [here]
      abel
    have kept := afterPut_uncopied grow arrays source row failed
    rw [back]
    apply arrays.meets_restore index.len place
    cases (grown.table.find row.key).2 <;> exact .pure kept
  · have moved : arrays.blocks + others + source + stored.cells =
        arrays.blocks + (source + strings (arrays.set (grown.table.find stored.row.key).1
          stored).slots) := by
      rw [show strings (arrays.set _ stored).slots = others + stored.cells from each (some stored)]
      abel
    have kept := @afterPut_copied fails index grown grow arrays same source stored
    rw [moved]
    cases found : (grown.table.find stored.row.key).2 with
    | true =>
      rw [found] at kept
      obtain ⟨old, rfl⟩ := used_slot same found place
      exact arrays.meets_replace index.len stored place (.pure kept)
    | false =>
      rw [found] at kept
      exact arrays.meets_fill index.len stored inside (.pure kept)

/-! ## Freeing -/

/-- The loop of `row_index_free` frees the strings of the slots from one on. -/
theorem Arrays.meets_freeRows (arrays : Arrays) (len : Nat) {left i : Nat}
    (whole : i + left = arrays.slots.length) {rows : List RowFields}
    (size : rows.length = arrays.slots.length)
    (ahead : rows.drop i = (arrays.slots.drop i).map fieldsOf) :
    Meets (freeRows (arrays.fields len) left i)
      ({(arrays.rows, .rows rows)} + {(arrays.used, .used (arrays.slots.map Option.isSome))} +
        strings (arrays.slots.drop i))
      fun _ kept => ∃ rows, kept = {(arrays.rows, .rows rows)} +
        {(arrays.used, .used (arrays.slots.map Option.isSome))} := by
  induction left generalizing i rows with
  | zero =>
    have done : arrays.slots.drop i = [] := List.drop_of_length_le (by omega)
    rw [done]
    exact .pure ⟨rows, add_zero _⟩
  | succ left ih =>
    have inside : i < arrays.slots.length := by omega
    have place : arrays.slots[i]? = some arrays.slots[i] := List.getElem?_eq_getElem inside
    have split : arrays.slots.drop i = arrays.slots[i] :: arrays.slots.drop (i + 1) :=
      List.drop_eq_getElem_cons inside
    have next : rows.drop (i + 1) = (arrays.slots.drop (i + 1)).map fieldsOf := by
      have tails := congrArg List.tail ahead
      rwa [List.tail_drop, ← List.map_tail, List.tail_drop] at tails
    have row : rows[i]? = some (fieldsOf arrays.slots[i]) := by
      have heads := congrArg List.head? ahead
      rwa [List.head?_drop, split, List.map_cons, List.head?_cons] at heads
    generalize arrays.slots[i] = slot at place split row
    have flag : (arrays.slots.map Option.isSome)[i]? = some slot.isSome := by
      rw [List.getElem?_map, place]
      rfl
    apply (arrays.returns_used len (by simp) flag).bind
    rw [strings_drop place]
    cases slot with
    | none =>
      rw [cellsOf, Option.elim_none, zero_add]
      exact ih (by omega) size next
    | some slot =>
      apply (arrays.returns_rows len (by simp) row).bind
      rw [add_left_comm]
      apply meets_freeStrings (some slot)
      have there : i < rows.length := by omega
      apply (arrays.leaves_writeRow len there _).bind (add_assoc _ _ _)
      have still : (rows.set i { slot.fields with key := none, value := none, expireAt := 0 }).drop
          (i + 1) = (arrays.slots.drop (i + 1)).map fieldsOf := by
        rw [List.drop_set_of_lt (by omega), next]
      rw [← add_assoc]
      exact ih (by omega) (by rw [List.length_set, size]) still

/-- `row_index_free` gives back all blocks of an index. -/
theorem leaves_rowIndexFree {fields : IndexFields} {own : Cells} {arr : RowArrays}
    (stored : Stored fields own arr) : Leaves (rowIndexFree fields) own 0 := by
  cases stored with
  | blank =>
    have nothing : Leaves (pure () : Prog Block Unit) 0 0 := .pure rfl
    apply nothing.bind (zero_add 0).symm
    apply leaves_free_null.bind rfl
    exact leaves_free_null
  | placed arrays len =>
    have start : (arrays.slots.map fieldsOf).drop 0 = (arrays.slots.drop 0).map fieldsOf := rfl
    have frees := arrays.meets_freeRows len (Nat.zero_add _) (List.length_map _) start
    apply frees.andThen
    rintro ⟨⟩ left ⟨rows, rfl⟩
    apply (leaves_free arrays.rows _).bind rfl
    rw [zero_add]
    exact leaves_free arrays.used _

end StreamPipeline.Store.Memory
