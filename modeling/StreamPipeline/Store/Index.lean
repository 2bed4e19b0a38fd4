import StreamPipeline.Lib.Probing
import StreamPipeline.Store.Format

/-!
# The index of latest rows

A query or a compaction reads the whole file into a hash index, later rows over earlier ones.
The index carries its load bound, so a search in it always ends; growing and storing keep the
bound. Every allocation and every `getline` can fail: a row whose parse runs out of memory is
skipped like a malformed one, and a `getline` that runs out of memory without the stream's
error flag ends the load as the end of the file does.
-/

namespace StreamPipeline.Store

open Probing

/-- `INITIAL_BUCKETS`. -/
abbrev initialBuckets : Nat := 64

/-- `hash_key`: 64-bit FNV-1a. -/
def hashKey (key : CStr) : UInt64 :=
  key.bytes.foldl (fun h byte => (h ^^^ byte.toUInt64) * 1099511628211) 14695981039346656037

/-- The bucket arrays `rows` and `used` as one list of optional rows. -/
abbrev Buckets := Table Row.key fun key => (hashKey key).toNat

/-- `row_index_t`. No buckets stand for capacity zero. -/
structure RowIndex where
  /-- `rows` and `used`. -/
  buckets : Option Buckets
  /-- `len`. -/
  len : Nat
  /-- `len` counts the used buckets. -/
  counted : len = (buckets.map fun table => table.entries.length).getD 0
  /-- The index is less than three quarters full. -/
  load : ∀ table ∈ buckets, 4 * len < 3 * table.slots.length

namespace RowIndex

/-- `row_index_t rows = {0}`. -/
def empty : RowIndex := ⟨none, 0, rfl, by simp⟩

/-- `cap`. -/
def cap (index : RowIndex) : Nat := (index.buckets.map fun table => table.slots.length).getD 0

/-- The used buckets in order, as the loops over `i < cap` visit them. -/
def rows (index : RowIndex) : List Row := (index.buckets.map Table.entries).getD []

/-- `row_index_get`. -/
def get (index : RowIndex) (key : CStr) : Option Row :=
  index.buckets.bind fun table => table.get key

end RowIndex

/-! ## Growing -/

/-- The capacity of `row_index_grow`: doubled until the next length is below three quarters. -/
def nextCap (nextLen cap : Nat) (positive : 0 < cap) : Nat :=
  if cap * 3 ≤ nextLen * 4 then nextCap nextLen (cap * 2) (Nat.mul_pos positive Nat.two_pos)
  else cap
termination_by nextLen * 4 + 1 - cap * 3

/-- The next capacity leaves room for the next length. -/
theorem nextCap_room (nextLen cap : Nat) (positive : 0 < cap) :
    nextLen * 4 < nextCap nextLen cap positive * 3 := by
  fun_induction nextCap nextLen cap positive with
  | case1 cap positive full ih => exact ih
  | case2 cap positive room => omega

/-- The next capacity is a power of two. -/
theorem nextCap_power {nextLen cap : Nat} (positive : 0 < cap) (power : ∃ bits, cap = 2 ^ bits) :
    ∃ bits, nextCap nextLen cap positive = 2 ^ bits := by
  fun_induction nextCap nextLen cap positive with
  | case1 cap positive full ih =>
    obtain ⟨bits, rfl⟩ := power
    exact ih ⟨bits + 1, by rw [Nat.pow_succ]⟩
  | case2 cap positive room => exact power

/-- The calls of one `row_index_put` that fail. -/
structure PutFaults where
  /-- `calloc` of the grown buckets. -/
  calloc : Bool
  /-- `strdup` of the key or the value. -/
  strdup : Bool

/-- Buckets with the rows of an index and room for one more. -/
structure Grown (index : RowIndex) where
  /-- The buckets. -/
  table : Buckets
  /-- No answer changes. -/
  answers : ∀ key, table.get key = index.get key
  /-- No row is lost. -/
  kept : table.entries.length = index.len
  /-- The load bound holds with one more row. -/
  room : (index.len + 1) * 4 < table.slots.length * 3

/-- The load bound leaves a free bucket. -/
theorem lt_of_room {filled len cap : Nat} (counted : filled = len)
    (room : (len + 1) * 4 < cap * 3) : filled < cap := by
  omega

/-- `row_index_grow` for one more row; none is its `-1`. -/
def rowIndexGrow (calloc : Bool) (index : RowIndex) : Option (Grown index) :=
  match same : index.buckets with
  | none =>
    if calloc then none
    else
      some {
        table := .blank _ _ (nextCap (index.len + 1) initialBuckets (by decide))
          (nextCap_power _ ⟨6, rfl⟩)
        answers := fun key => by rw [Table.get_blank, RowIndex.get, same]; rfl
        kept := by
          have none := index.counted
          rw [same] at none
          simp [Table.entries, Table.blank, none]
        room := by
          have enough := nextCap_room (index.len + 1) initialBuckets (by decide)
          simpa [Table.blank] using enough }
  | some table =>
    have counted : table.entries.length = index.len := by
      have count := index.counted
      rw [same] at count
      exact count.symm
    have positive : 0 < table.slots.length := List.length_pos_of_mem table.spare
    have enough := nextCap_room (index.len + 1) table.slots.length positive
    if unchanged : nextCap (index.len + 1) table.slots.length positive = table.slots.length then
      some {
        table
        answers := fun key => by rw [RowIndex.get, same]; rfl
        kept := counted
        room := by rwa [unchanged] at enough }
    else if calloc then none
    else
      some {
        table := table.rehash (nextCap (index.len + 1) table.slots.length positive)
          (nextCap_power _ table.power) (lt_of_room counted enough)
        answers := fun key => by rw [Table.get_rehash, RowIndex.get, same]; rfl
        kept := by rw [Table.length_entries_rehash, counted]
        room := by rwa [Table.length_rehash] }

/-- `row_index_put`; none is its `-1`. -/
def rowIndexPut (faults : PutFaults) (index : RowIndex) (row : Row) : Option RowIndex :=
  match rowIndexGrow faults.calloc index with
  | none => none
  | some grown =>
    if faults.strdup then none
    else
      have room : 1 < grown.table.free := by
        have filled := grown.table.entries_add_free
        have kept := grown.kept
        have bound := grown.room
        omega
      let len := index.len + if (grown.table.find row.key).2 then 0 else 1
      some {
        buckets := some (grown.table.put row room)
        len
        counted := by
          show len = (grown.table.put row room).entries.length
          rw [Table.length_entries_put, grown.kept]
        load := by
          intro table member
          obtain rfl : grown.table.put row room = table := Option.some.inj member
          have bound := grown.room
          rw [Table.length_put]
          show 4 * (index.len + _) < _
          split <;> omega }

/-! ## Loading -/

/-- The calls of one `load_latest_rows` that fail without its notice, by line. -/
structure SilentFaults where
  /-- `getline` runs out of memory and leaves the error flag of the stream clear. -/
  getline : Nat → Bool
  /-- The allocations of `parse_db_row`. -/
  parse : Nat → ParseFaults

/-- The calls of one `load_latest_rows` that fail and make it fail, by line. -/
structure LoadFaults where
  /-- `getline` fails and sets the error flag of the stream. -/
  getline : Nat → Bool
  /-- The allocations of `row_index_put`. -/
  put : Nat → PutFaults

/-- No call fails unnoticed. -/
def SilentFaults.none : SilentFaults := ⟨fun _ => false, fun _ => .none⟩

/-- No call fails. -/
def LoadFaults.none : LoadFaults := ⟨fun _ => false, fun _ => ⟨false, false⟩⟩

/-- The read loop from a line on; none is the `-1` of `load_latest_rows`. -/
def loadFrom (miniz : Miniz) (silent : SilentFaults) (faults : LoadFaults) :
    Nat → List Bytes → RowIndex → Option RowIndex
  | number, [], index => if faults.getline number then none else some index
  | number, line :: rest, index =>
    if faults.getline number then none
    else if silent.getline number then some index
    else
      match parseDbRow miniz (silent.parse number) (chomp line) with
      | none => loadFrom miniz silent faults (number + 1) rest index
      | some row =>
        match rowIndexPut (faults.put number) index row with
        | none => none
        | some index => loadFrom miniz silent faults (number + 1) rest index

/-- `load_latest_rows` on a file's content; none is its `-1`. -/
def loadLatestRows (miniz : Miniz) (silent : SilentFaults) (faults : LoadFaults)
    (content : Bytes) : Option RowIndex :=
  loadFrom miniz silent faults 0 (lines content) .empty

/-- `load_latest_row`: none is its `-1`; the copy of the row found can fail. -/
def loadLatestRow (miniz : Miniz) (silent : SilentFaults) (faults : LoadFaults) (copy : Bool)
    (key : CStr) (content : Bytes) : Option (Option Row) :=
  match loadLatestRows miniz silent faults content with
  | none => none
  | some index =>
    match index.get key with
    | none => some none
    | some row => if copy then none else some (some row)

/-! ## The rows of an index -/

/-- The rows of an index are the ones its searches find. -/
theorem RowIndex.mem_rows (index : RowIndex) (row : Row) :
    row ∈ index.rows ↔ index.get row.key = some row := by
  unfold rows get
  cases index.buckets with
  | none => simp
  | some table => exact table.mem_entries row

/-- The rows of an index have different keys. -/
theorem RowIndex.rows_nodup (index : RowIndex) : (index.rows.map Row.key).Nodup := by
  unfold rows
  cases index.buckets with
  | none => simp
  | some table => exact table.entries_nodup

/-- A found row has the key it was searched by. -/
theorem RowIndex.key_of_get {index : RowIndex} {key : CStr} {row : Row}
    (got : index.get key = some row) : row.key = key := by
  unfold get at got
  obtain ⟨table, -, got⟩ := Option.bind_eq_some_iff.mp got
  exact ((table.get_eq_some_iff _ _).mp got).2

/-- Without faults the index always grows. -/
theorem rowIndexGrow_none (index : RowIndex) : (rowIndexGrow false index).isSome = true := by
  unfold rowIndexGrow
  split
  · rfl
  · dsimp only
    split <;> rfl

/-- A stored row is put into the grown buckets. -/
theorem rowIndexPut_some {faults : PutFaults} {index after : RowIndex} {row : Row}
    (put : rowIndexPut faults index row = some after) :
    ∃ (grown : Grown index) (room : 1 < grown.table.free),
      rowIndexGrow faults.calloc index = some grown ∧ faults.strdup = false ∧
      after.buckets = some (grown.table.put row room) ∧
      after.len = index.len + if (grown.table.find row.key).2 then 0 else 1 := by
  unfold rowIndexPut at put
  split at put
  · contradiction
  · rename_i grown grow
    split at put
    · contradiction
    · rename_i copied
      rw [← Option.some.inj put]
      exact ⟨grown, _, grow, Bool.eq_false_iff.mpr copied, rfl, rfl⟩

/-- A stored row is the answer for its key and changes no other. -/
theorem get_rowIndexPut {faults : PutFaults} {index after : RowIndex} {row : Row}
    (put : rowIndexPut faults index row = some after) (key : CStr) :
    after.get key = if row.key = key then some row else index.get key := by
  obtain ⟨grown, room, -, -, buckets, -⟩ := rowIndexPut_some put
  rw [RowIndex.get, buckets, Option.bind_some, Table.get_put, grown.answers]

/-- Without faults a row is always stored. -/
theorem rowIndexPut_none (index : RowIndex) (row : Row) :
    ∃ after, rowIndexPut ⟨false, false⟩ index row = some after := by
  obtain ⟨grown, same⟩ := Option.isSome_iff_exists.mp (rowIndexGrow_none index)
  unfold rowIndexPut
  rw [same]
  exact ⟨_, rfl⟩

/-! ## Latest rows -/

/-- The last row of a key, if any. -/
def latest (rows : List Row) (key : CStr) : Option Row :=
  (rows.filter fun row => row.key = key).getLast?

/-- No row is the latest of none. -/
@[simp]
theorem latest_nil (key : CStr) : latest [] key = none := rfl

/-- Later rows go over earlier ones. -/
theorem latest_append (earlier later : List Row) (key : CStr) :
    latest (earlier ++ later) key = (latest later key).or (latest earlier key) := by
  simp [latest, List.getLast?_append]

/-- The latest of one row. -/
theorem latest_singleton (row : Row) (key : CStr) :
    latest [row] key = if row.key = key then some row else none := by
  by_cases same : row.key = key <;> simp [latest, same]

/-- The latest row of a key is one of the rows and has the key. -/
theorem latest_mem {rows : List Row} {key : CStr} {row : Row}
    (found : latest rows key = some row) : row ∈ rows ∧ row.key = key := by
  have member := List.mem_of_getLast? found
  simpa using member

/-- A key that no row has has no latest row. -/
theorem latest_eq_none {rows : List Row} {key : CStr} (absent : ∀ row ∈ rows, row.key ≠ key) :
    latest rows key = none := by
  rw [Option.eq_none_iff_forall_not_mem]
  intro row found
  have member := latest_mem found
  exact absent row member.1 member.2

/-- Among rows of different keys every row is the latest of its key. -/
theorem latest_of_nodup {rows : List Row} (distinct : (rows.map Row.key).Nodup) (key : CStr)
    (row : Row) : latest rows key = some row ↔ row ∈ rows ∧ row.key = key := by
  refine ⟨latest_mem, ?_⟩
  rintro ⟨member, rfl⟩
  induction rows with
  | nil => contradiction
  | cons first rest ih =>
    rw [List.map_cons, List.nodup_cons] at distinct
    rw [← List.singleton_append, latest_append, latest_singleton]
    rcases List.mem_cons.mp member with rfl | member
    · have absent : latest rest row.key = none := by
        apply Option.eq_none_iff_forall_ne_some.mpr
        intro other found
        obtain ⟨inside, same⟩ := latest_mem found
        exact distinct.1 (same ▸ List.mem_map_of_mem inside)
      rw [absent, if_pos rfl]
      rfl
    · rw [ih distinct.2 member]
      rfl

/-- The latest row of a key when it is live, as a query shows it. -/
def visible (rows : List Row) (now : Int64) (key : CStr) : Option Row :=
  (latest rows key).filter fun row => row.isLive now

/-- The rows a load stores: the lines it reads and can parse. -/
def scanned (miniz : Miniz) (silent : SilentFaults) : Nat → List Bytes → List Row
  | _, [] => []
  | number, line :: rest =>
    if silent.getline number then []
    else
      (parseDbRow miniz (silent.parse number) (chomp line)).toList ++
        scanned miniz silent (number + 1) rest

/-- The rows of a file: the lines that parse. -/
def rowsOf (miniz : Miniz) (content : Bytes) : List Row :=
  (lines content).filterMap fun line => parseDbRow miniz .none (chomp line)

/-- Without faults every line that parses is stored. -/
theorem scanned_none (miniz : Miniz) (number : Nat) (text : List Bytes) :
    scanned miniz .none number text =
      text.filterMap fun line => parseDbRow miniz .none (chomp line) := by
  induction text generalizing number with
  | nil => rfl
  | cons line rest ih =>
    show (parseDbRow miniz .none (chomp line)).toList ++ scanned miniz .none (number + 1) rest = _
    rw [ih, List.filterMap_cons]
    cases parseDbRow miniz .none (chomp line) <;> rfl

/-- A finished load answers with the latest row it stored, or as before. -/
theorem get_loadFrom {miniz : Miniz} {silent : SilentFaults} {faults : LoadFaults} {number : Nat}
    {text : List Bytes} {index after : RowIndex}
    (loaded : loadFrom miniz silent faults number text index = some after) (key : CStr) :
    after.get key = (latest (scanned miniz silent number text) key).or (index.get key) := by
  fun_induction loadFrom miniz silent faults number text index with
  | case1 | case3 => contradiction
  | case2 number index running => simp_all [scanned]
  | case4 number line rest index running starved => simp_all [scanned]
  | case5 number line rest index running fed unread ih =>
    rw [ih loaded, scanned, if_neg fed, unread]
    rfl
  | case6 => contradiction
  | case7 number line rest index running fed row parsed next put ih =>
    rw [ih loaded, get_rowIndexPut put, scanned, if_neg fed, parsed]
    show _ = (latest ([row] ++ scanned miniz silent (number + 1) rest) key).or _
    rw [latest_append, latest_singleton, Option.or_assoc]
    split <;> rfl

/-- A load no noticed fault strikes finishes. -/
theorem loadFrom_none (miniz : Miniz) (silent : SilentFaults) (number : Nat) (text : List Bytes)
    (index : RowIndex) : ∃ after, loadFrom miniz silent .none number text index = some after := by
  fun_induction loadFrom miniz silent .none number text index with
  | case1 number index failed => contradiction
  | case2 number index running => exact ⟨index, rfl⟩
  | case3 number line rest index failed => contradiction
  | case4 number line rest index running starved => exact ⟨index, rfl⟩
  | case5 number line rest index running fed unread ih => exact ih
  | case6 number line rest index running fed row parsed failed =>
    obtain ⟨after, put⟩ := rowIndexPut_none index row
    rw [LoadFaults.none, put] at failed
    contradiction
  | case7 number line rest index running fed row parsed next put ih => exact ih

/-- The index of a file holds exactly the latest row of every key. -/
theorem exists_loadLatestRows (miniz : Miniz) (content : Bytes) :
    ∃ index, loadLatestRows miniz .none .none content = some index ∧
      ∀ key, index.get key = latest (rowsOf miniz content) key := by
  obtain ⟨index, loaded⟩ := loadFrom_none miniz .none 0 (lines content) .empty
  refine ⟨index, loaded, fun key => ?_⟩
  rw [get_loadFrom loaded, scanned_none, rowsOf]
  exact Option.or_none

/-! ## Rows of a text -/

/-- The rows of a complete text are not changed by what follows it. -/
theorem rowsOf_append (miniz : Miniz) {left : Bytes} (complete : Complete left) (right : Bytes) :
    rowsOf miniz (left ++ right) = rowsOf miniz left ++ rowsOf miniz right := by
  rw [rowsOf, lines_append complete, List.filterMap_append]
  rfl

/-- A row written under a clean key is the row of its line. -/
theorem rowsOf_rowLine {miniz : Miniz} (lawful : miniz.Lawful) {key : CStr} (clean : Clean key)
    (value : CStr) (expireAt : Int64) :
    rowsOf miniz (rowLine key.bytes (valueField miniz value) expireAt) =
      [⟨key, value, expireAt⟩] := by
  rw [rowsOf, lines_rowLine miniz clean, List.filterMap_cons, parseDbRow_rowLine lawful clean]
  rfl

/-- A row read from a line has a clean key. -/
theorem clean_of_parseDbRow {miniz : Miniz} {faults : ParseFaults} {line : Bytes} {row : Row}
    (parsed : parseDbRow miniz faults (chomp line) = some row) : Clean row.key := by
  obtain ⟨lineCr, lineLf⟩ := not_mem_chomp line
  unfold parseDbRow at parsed
  split at parsed
  · contradiction
  · rename_i key field expireAt split
    obtain ⟨value, -, rfl⟩ := Option.map_eq_some_iff.mp parsed
    unfold splitRow at split
    split at split
    · contradiction
    · rename_i first rest cut
      obtain ⟨whole, keyTab⟩ := cutAt_some cut
      have same : first = key := by
        split at split
        · contradiction
        · split at split
          · contradiction
          · split at split
            · contradiction
            · exact (Prod.mk.inj (Option.some.inj split)).1
      subst same
      have inside : ∀ byte ∈ (CStr.ofBytes first).bytes, byte ∈ first :=
        fun byte member => List.takeWhile_subset _ member
      rw [whole] at lineCr lineLf
      exact ⟨fun member => keyTab (inside _ member),
        fun member => lineCr (List.mem_append_left _ (inside _ member)),
        fun member => lineLf (List.mem_append_left _ (inside _ member))⟩

/-- Every row a load stores has a clean key. -/
theorem clean_of_scanned {miniz : Miniz} {silent : SilentFaults} {number : Nat}
    {text : List Bytes} {row : Row} (member : row ∈ scanned miniz silent number text) :
    Clean row.key := by
  induction text generalizing number with
  | nil => contradiction
  | cons line rest ih =>
    unfold scanned at member
    split at member
    · contradiction
    · rcases List.mem_append.mp member with here | later
      · exact clean_of_parseDbRow (Option.mem_toList.mp here)
      · exact ih later

end StreamPipeline.Store
