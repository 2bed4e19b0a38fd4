import StreamPipeline.Store.Index

/-!
# The bucket arrays of the index

The hash index as the arrays the code holds, with nothing known of them: a search can go round
for ever, a failed call leaves what it left. The index with its load bound describes every
array a load goes through, so every search in them ends, also between two moves to larger
buckets.
-/

namespace StreamPipeline.Store

open Probing

/-- `row_index_t` as its arrays. -/
structure RowArrays where
  /-- `rows` and `used`, as many as `cap`. -/
  slots : List (Option Row)
  /-- `len`. -/
  len : Nat
  deriving DecidableEq

/-- `find_slot`; none when the search never ends. -/
def findSlot (slots : List (Option Row)) (key : CStr) : Option (Nat × Bool) :=
  probe Row.key slots key slots.length (wrap slots.length (hashKey key).toNat)

/-- `row_index_get`; none when the search never ends. -/
def RowArrays.get (index : RowArrays) (key : CStr) : Option (Option Row) :=
  if index.slots.length = 0 then some none
  else
    (findSlot index.slots key).map fun stop =>
      if stop.2 then index.slots[stop.1]?.join else none

/-- The moves of `row_index_grow` to the grown buckets; none when a search never ends. -/
def moveRows : List (Option Row) → RowArrays → Option RowArrays
  | [], grown => some grown
  | none :: slots, grown => moveRows slots grown
  | some row :: slots, grown =>
    match findSlot grown.slots row.key with
    | none => none
    | some (slot, _) => moveRows slots ⟨grown.slots.set slot (some row), grown.len + 1⟩

/-- `index->cap == 0 ? INITIAL_BUCKETS : index->cap`. -/
def startCap (cap : Nat) : Nat := if cap = 0 then initialBuckets else cap

/-- It is positive. -/
theorem startCap_pos (cap : Nat) : 0 < startCap cap := by
  rw [startCap]
  split
  · decide
  · omega

/-- `next_cap` of `row_index_grow`. -/
def RowArrays.grownCap (index : RowArrays) : Nat :=
  nextCap (index.len + 1) (startCap index.slots.length) (startCap_pos _)

/-- `allocate_buckets`. -/
def emptyBuckets (cap : Nat) : RowArrays := ⟨List.replicate cap none, 0⟩

/-- `row_index_grow` for one more row: none when a search never ends, and within that none is its
`-1`. -/
def growArrays (calloc : Bool) (index : RowArrays) : Option (Option RowArrays) :=
  if index.grownCap = index.slots.length then some (some index)
  else if calloc then some none
  else (moveRows index.slots (emptyBuckets index.grownCap)).map some

/-- `row_index_put`: whether it returns `0`, and the index it leaves; none when a search never
ends. -/
def putArrays (faults : PutFaults) (index : RowArrays) (row : Row) : Option (Bool × RowArrays) :=
  match growArrays faults.calloc index with
  | none => none
  | some none => some (false, index)
  | some (some grown) =>
    match findSlot grown.slots row.key with
    | none => none
    | some (slot, found) =>
      if faults.strdup then some (false, grown)
      else some (true, ⟨grown.slots.set slot (some row), grown.len + if found then 0 else 1⟩)

/-- The read loop of `load_latest_rows` without failing calls: the index it leaves, none when a
search never ends or a row is not stored. -/
def loadArrays (miniz : Miniz) : List Bytes → RowArrays → Option RowArrays
  | [], index => some index
  | line :: rest, index =>
    match parseDbRow miniz .none (chomp line) with
    | none => loadArrays miniz rest index
    | some row =>
      match putArrays ⟨false, false⟩ index row with
      | some (true, index) => loadArrays miniz rest index
      | _ => none

/-! ## The arrays of an index -/

/-- The arrays an index stands for. -/
def RowIndex.arrays (index : RowIndex) : RowArrays :=
  ⟨(index.buckets.map Table.slots).getD [], index.len⟩

/-- The arrays without buckets. -/
theorem RowIndex.slots_none {index : RowIndex} (none : index.buckets = none) :
    index.arrays.slots = [] := by
  rw [RowIndex.arrays, none]
  rfl

/-- The arrays of a table. -/
theorem RowIndex.slots_some {index : RowIndex} {table : Buckets}
    (some : index.buckets = some table) : index.arrays.slots = table.slots := by
  rw [RowIndex.arrays, some]
  rfl

/-- A search in a table ends where the table finds the key. -/
theorem findSlot_table (table : Buckets) (key : CStr) :
    findSlot table.slots key = some (table.find key) :=
  table.probe_eq_find key

/-- The arrays answer as the index. -/
theorem RowIndex.get_arrays (index : RowIndex) (key : CStr) :
    index.arrays.get key = some (index.get key) := by
  rw [RowArrays.get, RowIndex.arrays, RowIndex.get]
  cases index.buckets with
  | none => rfl
  | some table =>
    have positive : table.slots.length ≠ 0 := table.slots_pos.ne'
    show (if table.slots.length = 0 then some none else _) = some (table.get key)
    rw [if_neg positive]
    simp only [Option.map_some, Option.getD_some, findSlot_table, Table.get]

/-- Moving rows to a table with room for them stores them one by one. -/
theorem moveRows_table (slots : List (Option Row)) (table : Buckets) (len : Nat)
    (room : (slots.filterMap id).length < table.free) :
    moveRows slots ⟨table.slots, len⟩ =
      some ⟨(table.putAll (slots.filterMap id) room).slots,
        len + (slots.filterMap id).length⟩ := by
  induction slots generalizing table len with
  | nil => rfl
  | cons slot slots ih =>
    cases slot with
    | none => exact ih table len room
    | some row =>
      have more : (slots.filterMap id).length + 1 < table.free := room
      have roomy : 1 < table.free := by omega
      have later := table.free_put row roomy
      have fits : (slots.filterMap id).length < (table.put row roomy).free := by omega
      have moved := ih (table.put row roomy) (len + 1) fits
      have count : len + 1 + (slots.filterMap id).length =
          len + ((some row :: slots).filterMap id).length := by
        show len + 1 + _ = len + (_ + 1)
        omega
      rw [count] at moved
      simp only [moveRows, findSlot_table]
      exact moved

/-- The capacities are those of the index. -/
theorem startCap_arrays (index : RowIndex) :
    startCap index.arrays.slots.length =
      (index.buckets.map fun table => table.slots.length).getD initialBuckets := by
  rw [RowIndex.arrays]
  cases index.buckets with
  | none => rfl
  | some table =>
    have positive : table.slots.length ≠ 0 := table.slots_pos.ne'
    exact if_neg positive

/-- Moving rows to blank buckets stores them as a rehash does. -/
theorem moveRows_blank (slots : List (Option Row)) {cap : Nat} (power : ∃ bits, cap = 2 ^ bits)
    (room : (slots.filterMap id).length < cap) :
    moveRows slots (emptyBuckets cap) =
      some ⟨((Table.blank Row.key (fun key => (hashKey key).toNat) cap power).putAll
        (slots.filterMap id) (by rwa [Table.free_blank])).slots, (slots.filterMap id).length⟩ := by
  have free : (slots.filterMap id).length <
      (Table.blank Row.key (fun key => (hashKey key).toNat) cap power).free := by
    rwa [Table.free_blank]
  have moved := moveRows_table slots (.blank _ _ cap power) 0 free
  rw [Nat.zero_add] at moved
  exact moved

/-- The capacity after growing. -/
theorem grownCap_eq (index : RowArrays) {cap : Nat} (start : startCap index.slots.length = cap)
    (positive : 0 < cap) : index.grownCap = nextCap (index.len + 1) cap positive := by
  subst start
  rfl

/-- An index without buckets grows to blank ones. -/
theorem rowIndexGrow_blank (calloc : Bool) {index : RowIndex} (none : index.buckets = none) :
    ((rowIndexGrow calloc index).map fun grown => grown.table.slots) =
      if calloc then .none
      else some (emptyBuckets (nextCap (index.len + 1) initialBuckets (by decide))).slots := by
  unfold rowIndexGrow
  split
  · cases calloc <;> rfl
  · rename_i table some
    rw [none] at some
    contradiction

/-- An index with buckets keeps them while they leave room, and moves its rows to larger ones. -/
theorem rowIndexGrow_table (calloc : Bool) {index : RowIndex} {table : Buckets}
    (some : index.buckets = some table) {cap : Nat} (power : ∃ bits, cap = 2 ^ bits)
    (room : table.entries.length < cap)
    (next : nextCap (index.len + 1) table.slots.length table.slots_pos = cap) :
    ((rowIndexGrow calloc index).map fun grown => grown.table.slots) =
      if cap = table.slots.length then .some table.slots
      else if calloc then none
      else .some (table.rehash cap power room).slots := by
  subst next
  unfold rowIndexGrow
  split
  · rename_i none
    rw [none] at some
    contradiction
  · rename_i other same
    have equal : other = table := by
      rw [same] at some
      exact Option.some.inj some
    subst equal
    dsimp only
    split
    · rfl
    · cases calloc <;> rfl

/-- The arrays grow as the index. -/
theorem growArrays_arrays (calloc : Bool) (index : RowIndex) :
    growArrays calloc index.arrays =
      some ((rowIndexGrow calloc index).map fun grown => ⟨grown.table.slots, index.len⟩) := by
  have start := startCap_arrays index
  have split : ((rowIndexGrow calloc index).map fun grown =>
      (⟨grown.table.slots, index.len⟩ : RowArrays)) =
      ((rowIndexGrow calloc index).map fun grown => grown.table.slots).map fun slots =>
        ⟨slots, index.len⟩ := by
    rw [Option.map_map]
    rfl
  rw [split, growArrays]
  cases found : index.buckets with
  | none =>
    have slots := RowIndex.slots_none found
    have blank : index.len = 0 := by
      have counted := index.counted
      rwa [found] at counted
    rw [found] at start
    have cap : index.arrays.grownCap = nextCap (index.len + 1) initialBuckets (by decide) :=
      grownCap_eq index.arrays start _
    have room := nextCap_room (index.len + 1) initialBuckets (by decide)
    have grows : index.arrays.grownCap ≠ index.arrays.slots.length := by
      rw [cap, slots, List.length_nil]
      omega
    rw [if_neg grows, rowIndexGrow_blank calloc found, cap, slots]
    cases calloc with
    | true => rfl
    | false =>
      show some (some (emptyBuckets _)) = some (some ⟨_, index.len⟩)
      rw [blank]
      rfl
  | some table =>
    have slots := RowIndex.slots_some found
    have counted : index.len = table.entries.length := by
      have counted := index.counted
      rwa [found] at counted
    rw [found] at start
    have positive := table.slots_pos
    have cap : index.arrays.grownCap = nextCap (index.len + 1) table.slots.length positive :=
      grownCap_eq index.arrays start positive
    have enough := nextCap_room (index.len + 1) table.slots.length positive
    have power : ∃ bits, nextCap (index.len + 1) table.slots.length positive = 2 ^ bits :=
      nextCap_power positive table.power
    have room : table.entries.length < nextCap (index.len + 1) table.slots.length positive := by
      omega
    rw [rowIndexGrow_table calloc found power room rfl, cap, slots]
    by_cases same : nextCap (index.len + 1) table.slots.length positive = table.slots.length
    · rw [if_pos same, if_pos same, RowIndex.arrays, found]
      rfl
    · rw [if_neg same, if_neg same]
      cases calloc with
      | true => rfl
      | false =>
        have moved := moveRows_blank table.slots power room
        show (moveRows table.slots _).map some = _
        rw [moved]
        exact congrArg (fun len => some (some (RowArrays.mk _ len))) counted.symm

/-- A stored row leaves the arrays of the index with the row. -/
theorem putArrays_stored {faults : PutFaults} {index after : RowIndex} {row : Row}
    (put : rowIndexPut faults index row = some after) :
    putArrays faults index.arrays row = some (true, after.arrays) := by
  obtain ⟨grown, room, grow, copied, buckets, len⟩ := rowIndexPut_some put
  have arrays : after.arrays = ⟨(grown.table.put row room).slots,
      index.len + if (grown.table.find row.key).2 then 0 else 1⟩ := by
    rw [RowIndex.arrays, buckets, len]
    rfl
  rw [putArrays, growArrays_arrays, grow, arrays]
  simp only [Option.map_some, findSlot_table, copied, Bool.false_eq_true, if_false]
  rfl

/-- A put that fails changes no answer. -/
theorem putArrays_failed {faults : PutFaults} {index : RowIndex} {row : Row}
    (failed : rowIndexPut faults index row = none) :
    ∃ left, putArrays faults index.arrays row = some (false, left) ∧
      ∀ key, left.get key = index.arrays.get key := by
  rw [putArrays, growArrays_arrays]
  rw [rowIndexPut] at failed
  cases grow : rowIndexGrow faults.calloc index with
  | none => exact ⟨index.arrays, rfl, fun key => rfl⟩
  | some grown =>
    rw [grow] at failed
    simp only [Option.map_some, findSlot_table]
    by_cases copied : faults.strdup = true
    · refine ⟨_, if_pos copied, fun key => ?_⟩
      have positive : grown.table.slots.length ≠ 0 := grown.table.slots_pos.ne'
      rw [index.get_arrays, ← grown.answers, RowArrays.get, if_neg positive]
      simp only [findSlot_table, Option.map_some, Table.get]
    · simp only [if_neg copied] at failed
      contradiction

/-! ## Loading -/

/-- A load ends with the arrays of the index it builds. -/
theorem loadArrays_arrays (miniz : Miniz) (text : List Bytes) (number : Nat)
    {index after : RowIndex}
    (loaded : loadFrom miniz .none .none number text index = some after) :
    loadArrays miniz text index.arrays = some after.arrays := by
  have fed : ∀ number, ¬SilentFaults.none.getline number = true := by
    simp [SilentFaults.none]
  have reads : ∀ number, ¬LoadFaults.none.getline number = true := by
    simp [LoadFaults.none]
  induction text generalizing number index with
  | nil =>
    rw [loadFrom, if_neg (reads number), Option.some.injEq] at loaded
    rw [loadArrays, loaded]
  | cons line rest ih =>
    rw [loadFrom, if_neg (reads number), if_neg (fed number)] at loaded
    have parse : SilentFaults.none.parse number = .none := rfl
    rw [parse] at loaded
    rw [loadArrays]
    cases parsed : parseDbRow miniz .none (chomp line) with
    | none =>
      rw [parsed] at loaded
      exact ih (number + 1) loaded
    | some row =>
      rw [parsed] at loaded
      have put : LoadFaults.none.put number = ⟨false, false⟩ := rfl
      simp only [put] at loaded
      cases stored : rowIndexPut ⟨false, false⟩ index row with
      | none =>
        rw [stored] at loaded
        contradiction
      | some next =>
        rw [stored] at loaded
        simp only [putArrays_stored stored]
        exact ih (number + 1) loaded

/-- An index has no buckets or at least the first ones. -/
def RowIndex.Large (index : RowIndex) : Prop :=
  ∀ table ∈ index.buckets, initialBuckets ≤ table.slots.length

/-- The next capacity is not below the last one. -/
theorem le_nextCap (nextLen cap : Nat) (positive : 0 < cap) :
    cap ≤ nextCap nextLen cap positive := by
  fun_induction nextCap nextLen cap positive with
  | case1 cap positive full ih => omega
  | case2 cap positive room => exact Nat.le_refl cap

/-- The buckets an index grows to are at least the first ones. -/
theorem RowIndex.Large.grow {calloc : Bool} {index : RowIndex} (large : index.Large)
    {grown : Grown index} (grow : rowIndexGrow calloc index = some grown) :
    initialBuckets ≤ grown.table.slots.length := by
  cases found : index.buckets with
  | none =>
    have slots := rowIndexGrow_blank calloc found
    rw [grow] at slots
    cases calloc with
    | true => simp at slots
    | false =>
      simp only [Option.map_some, Bool.false_eq_true, ↓reduceIte, Option.some.injEq] at slots
      rw [slots, emptyBuckets, List.length_replicate]
      exact le_nextCap _ _ _
  | some table =>
    have first := large table found
    have positive := table.slots_pos
    have enough := nextCap_room (index.len + 1) table.slots.length positive
    have counted := index.counted
    rw [found, Option.map_some, Option.getD_some] at counted
    have slots := rowIndexGrow_table calloc found (nextCap_power positive table.power)
      (by omega) rfl
    rw [grow] at slots
    by_cases same : nextCap (index.len + 1) table.slots.length positive = table.slots.length
    · simp only [Option.map_some, if_pos same, Option.some.injEq] at slots
      rw [slots]
      exact first
    · cases calloc with
      | true => simp [same] at slots
      | false =>
        simp only [Option.map_some, if_neg same, Bool.false_eq_true, ↓reduceIte,
          Option.some.injEq] at slots
        rw [slots, Table.length_rehash]
        exact Nat.le_trans first (le_nextCap _ _ _)

/-- A stored row leaves at least the first buckets. -/
theorem RowIndex.Large.put {faults : PutFaults} {index after : RowIndex} {row : Row}
    (large : index.Large) (put : rowIndexPut faults index row = some after) : after.Large := by
  obtain ⟨grown, room, grow, -, buckets, -⟩ := rowIndexPut_some put
  intro table member
  rw [buckets] at member
  have same := Option.some.inj member
  rw [← same, Table.length_put]
  exact large.grow grow

/-- A load from a large index leaves one. -/
theorem RowIndex.Large.load {miniz : Miniz} {silent : SilentFaults} {faults : LoadFaults}
    {number : Nat} {text : List Bytes} {index after : RowIndex} (large : index.Large)
    (loaded : loadFrom miniz silent faults number text index = some after) : after.Large := by
  fun_induction loadFrom miniz silent faults number text index with
  | case1 | case3 | case6 => contradiction
  | case2 number index running => exact Option.some.inj loaded ▸ large
  | case4 number line rest index running starved => exact Option.some.inj loaded ▸ large
  | case5 number line rest index running fed unread ih => exact ih large loaded
  | case7 number line rest index running fed row parsed next put ih =>
    exact ih (large.put put) loaded

/-- The rows that some lines hold. -/
def rowsOn (miniz : Miniz) (text : List Bytes) : List Row :=
  text.filterMap fun line => parseDbRow miniz .none (chomp line)

/-- Loading lines ends with the arrays of an index that answers with their latest rows. -/
theorem exists_loadArrays (miniz : Miniz) (text : List Bytes) :
    ∃ index : RowIndex, loadArrays miniz text ⟨[], 0⟩ = some index.arrays ∧ index.Large ∧
      ∀ key, index.get key = latest (rowsOn miniz text) key := by
  obtain ⟨index, loaded⟩ := loadFrom_none miniz .none 0 text .empty
  have blank : RowIndex.empty.Large := by
    intro table member
    contradiction
  refine ⟨index, loadArrays_arrays miniz text 0 loaded, blank.load loaded, fun key => ?_⟩
  rw [get_loadFrom loaded, scanned_none, rowsOn]
  exact Option.or_none

/-! ## What the arrays hold -/

/-- The invariant of the arrays that hold the latest of some rows. -/
structure RowArrays.Indexes (index : RowArrays) (rows : List Row) : Prop where
  /-- The capacity is zero, or a power of two from the first one on and less than three quarters
  full. -/
  cap : index.slots.length = 0 ∨ (∃ bits, index.slots.length = 2 ^ bits) ∧
    initialBuckets ≤ index.slots.length ∧ 4 * index.len < 3 * index.slots.length
  /-- `len` counts the used buckets. -/
  used : index.len = index.slots.countP Option.isSome
  /-- `len` counts the keys. -/
  keys : index.len = (rows.map Row.key).dedup.length
  /-- Every key has one bucket. -/
  once : ∀ key ∈ rows.map Row.key,
    ∃! place : Nat, ∃ row : Row, index.slots[place]? = some (some row) ∧ row.key = key
  /-- From the home of a stored key to its bucket no bucket is empty. -/
  chain : ∀ (place : Nat) (row : Row), index.slots[place]? = some (some row) →
    ∃ steps, place = (wrap index.slots.length (hashKey row.key).toNat + steps) %
        index.slots.length ∧
      ∀ earlier < steps, ∃ crossed,
        index.slots[(wrap index.slots.length (hashKey row.key).toNat + earlier) %
          index.slots.length]? = some (some crossed)
  /-- Every search ends. -/
  ends : ∀ key, index.slots.length ≠ 0 → (findSlot index.slots key).isSome = true
  /-- The answer for a key is its latest row. -/
  answers : ∀ key, index.get key = some (latest rows key)

/-- Between two moves to grown buckets every search in them ends. -/
def RowArrays.MovesEnd (index : RowArrays) : Prop :=
  ∀ moved left, index.slots = moved ++ left →
    ∃ grown, moveRows moved (emptyBuckets index.grownCap) = some grown ∧
      ∀ key, (findSlot grown.slots key).isSome = true

/-- Every put ends, and one that fails changes no answer. -/
def RowArrays.KeepsAnswers (index : RowArrays) : Prop :=
  ∀ faults row, ∃ stored left, putArrays faults index row = some (stored, left) ∧
    (stored = false → ∀ key, left.get key = index.get key)

/-- A key has a latest row when one of the rows has it. -/
theorem latest_isSome (rows : List Row) (key : CStr) :
    (latest rows key).isSome = true ↔ key ∈ rows.map Row.key := by
  rw [List.mem_map]
  constructor
  · intro found
    obtain ⟨row, same⟩ := Option.isSome_iff_exists.mp found
    exact ⟨row, latest_mem same⟩
  · rintro ⟨row, member, same⟩
    cases found : latest rows key with
    | some other => rfl
    | none =>
      have empty := List.getLast?_eq_none_iff.mp found
      have kept : row ∈ rows.filter fun row => row.key = key :=
        List.mem_filter.mpr ⟨member, by simpa using same⟩
      rw [empty] at kept
      contradiction

/-- The rows in the arrays are those of the index, as many as its length says. -/
theorem RowIndex.filterMap_slots (index : RowIndex) :
    index.arrays.slots.filterMap id = index.rows ∧ index.rows.length = index.len := by
  have counted := index.counted
  rw [RowIndex.rows]
  cases found : index.buckets with
  | none =>
    rw [found] at counted
    rw [RowIndex.slots_none found]
    exact ⟨rfl, counted.symm⟩
  | some table =>
    rw [found] at counted
    rw [RowIndex.slots_some found]
    exact ⟨rfl, counted.symm⟩

/-- The keys of the index are those of the rows it answers with the latest of. -/
theorem RowIndex.keys_perm {index : RowIndex} {rows : List Row}
    (answers : ∀ key, index.get key = latest rows key) :
    (index.rows.map Row.key).Perm (rows.map Row.key).dedup := by
  apply (List.perm_ext_iff_of_nodup index.rows_nodup (List.nodup_dedup _)).mpr
  intro key
  rw [List.mem_dedup, ← latest_isSome rows, ← answers, List.mem_map]
  constructor
  · rintro ⟨row, member, same⟩
    have got := (index.mem_rows row).mp member
    rw [← same, got]
    rfl
  · intro found
    obtain ⟨row, got⟩ := Option.isSome_iff_exists.mp found
    have same := RowIndex.key_of_get got
    exact ⟨row, (index.mem_rows row).mpr (same ▸ got), same⟩

/-- The arrays of a large index with the latest rows meet the invariant. -/
theorem RowIndex.indexes {index : RowIndex} (large : index.Large) {rows : List Row}
    (answers : ∀ key, index.get key = latest rows key) : index.arrays.Indexes rows where
  cap := by
    cases found : index.buckets with
    | none =>
      rw [RowIndex.slots_none found]
      exact .inl rfl
    | some table =>
      rw [RowIndex.slots_some found]
      exact .inr ⟨table.power, large table found, index.load table found⟩
  used := by
    have rows := index.filterMap_slots
    have count := List.length_filterMap_eq_countP (f := id) (l := index.arrays.slots)
    rw [rows.1, rows.2] at count
    exact count
  keys := by
    have length := (RowIndex.keys_perm answers).length_eq
    rw [List.length_map, index.filterMap_slots.2] at length
    exact length
  once := by
    intro key member
    have found := (latest_isSome rows key).mpr member
    rw [← answers] at found
    obtain ⟨row, got⟩ := Option.isSome_iff_exists.mp found
    obtain ⟨table, buckets, got⟩ := Option.bind_eq_some_iff.mp got
    have inside := (table.get_eq_some_iff key row).mp got
    obtain ⟨place, stored⟩ := List.mem_iff_getElem?.mp inside.1
    rw [RowIndex.slots_some buckets]
    refine ⟨place, ⟨row, stored, inside.2⟩, ?_⟩
    rintro other ⟨twin, storedTwin, same⟩
    have first := table.reachable place row stored
    have second := table.reachable other twin storedTwin
    rw [same, ← inside.2, first, Option.some.injEq, Prod.mk.injEq] at second
    exact second.1.symm
  chain := by
    intro place row stored
    cases found : index.buckets with
    | none =>
      rw [RowIndex.slots_none found] at stored
      contradiction
    | some table =>
      rw [RowIndex.slots_some found] at stored ⊢
      obtain ⟨steps, -, path⟩ := probe_path table.power (table.wrap_lt _)
        (table.reachable place row stored)
      exact ⟨steps, path⟩
  ends := by
    intro key filled
    cases found : index.buckets with
    | none =>
      rw [RowIndex.slots_none found] at filled
      contradiction
    | some table =>
      rw [RowIndex.slots_some found, findSlot_table]
      rfl
  answers key := by rw [index.get_arrays, answers]

/-- The capacity an index grows to is a power of two with room for its rows. -/
theorem RowIndex.grownCap_spec (index : RowIndex) :
    (∃ bits, index.arrays.grownCap = 2 ^ bits) ∧ index.len < index.arrays.grownCap := by
  have room := nextCap_room (index.arrays.len + 1) (startCap index.arrays.slots.length)
    (startCap_pos _)
  have start : ∃ bits, startCap index.arrays.slots.length = 2 ^ bits := by
    rw [startCap_arrays]
    cases index.buckets with
    | none => exact ⟨6, rfl⟩
    | some table => exact table.power
  refine ⟨nextCap_power _ start, ?_⟩
  have len : index.arrays.len = index.len := rfl
  rw [RowArrays.grownCap]
  omega

/-- Every search ends while an index grows. -/
theorem RowIndex.movesEnd (index : RowIndex) : index.arrays.MovesEnd := by
  intro moved left whole
  have rows := index.filterMap_slots
  have spec := index.grownCap_spec
  have part : (moved.filterMap id).length ≤ index.len := by
    rw [← rows.2, ← rows.1, whole, List.filterMap_append, List.length_append]
    omega
  refine ⟨_, moveRows_blank moved spec.1 (by omega), fun key => ?_⟩
  rw [findSlot_table]
  rfl

/-- A put to an index ends, and a failed one changes no answer. -/
theorem RowIndex.keepsAnswers (index : RowIndex) : index.arrays.KeepsAnswers := by
  intro faults row
  cases put : rowIndexPut faults index row with
  | some after => exact ⟨true, _, putArrays_stored put, fun failed => by contradiction⟩
  | none =>
    obtain ⟨left, ended, same⟩ := putArrays_failed put
    exact ⟨false, left, ended, fun _ => same⟩

/-- A load of any file ends, with the latest row of every key in the arrays and room left. At
every point of it every search ends, also between two moves, and a failed put changes no
answer. -/
theorem loadArrays_indexes (miniz : Miniz) (content : Bytes) :
    (∃ index, loadArrays miniz (lines content) ⟨[], 0⟩ = some index ∧
      index.Indexes (rowsOf miniz content)) ∧
    ∀ front back, lines content = front ++ back →
      ∃ index, loadArrays miniz front ⟨[], 0⟩ = some index ∧
        index.Indexes (rowsOn miniz front) ∧ index.MovesEnd ∧ index.KeepsAnswers := by
  constructor
  · obtain ⟨index, loaded, large, answers⟩ := exists_loadArrays miniz (lines content)
    exact ⟨index.arrays, loaded, RowIndex.indexes large answers⟩
  · intro front back whole
    obtain ⟨index, loaded, large, answers⟩ := exists_loadArrays miniz front
    exact ⟨index.arrays, loaded, RowIndex.indexes large answers, index.movesEnd,
      index.keepsAnswers⟩

end StreamPipeline.Store
