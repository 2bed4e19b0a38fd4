import StreamPipeline.Codec.Reader
import StreamPipeline.Store.Main

/-!
# The store as a map

A reference map gives every key at most one value with its expiration. Writing replaces an entry,
deleting removes it, and an entry shows until its expiration. A database file stands for such a
map from a time on: the rows a query shows are the entries that show. Every invocation keeps
this, compaction included, so a history of invocations shows what the reference shows.
-/

namespace StreamPipeline.Store

open Codec

/-! ## The reference -/

/-- A value and the time it expires at; time zero never comes. -/
structure Entry where
  /-- The value. -/
  value : CStr
  /-- The expiration time. -/
  expireAt : Int
  deriving DecidableEq

/-- The entry shows at a time. -/
def Entry.ShowsAt (entry : Entry) (time : Int) : Prop :=
  entry.expireAt = 0 ∨ time < entry.expireAt

instance (entry : Entry) (time : Int) : Decidable (entry.ShowsAt time) := by
  unfold Entry.ShowsAt
  infer_instance

/-- What the store should hold. -/
abbrev Reference := CStr → Option Entry

namespace Reference

/-- The last writer of a key wins. -/
def put (reference : Reference) (key : CStr) (entry : Entry) : Reference :=
  fun other => if other = key then some entry else reference other

/-- A deleted key has no entry. -/
def remove (reference : Reference) (key : CStr) : Reference :=
  fun other => if other = key then none else reference other

/-- The entry of a key that shows at a time. -/
def look (reference : Reference) (time : Int) (key : CStr) : Option Entry :=
  (reference key).filter fun entry => entry.ShowsAt time

end Reference

/-- One accepted write: its key, its value and the time its expiration counts from. -/
structure Write where
  /-- The key. -/
  key : CStr
  /-- The value. -/
  value : CStr
  /-- The time read for it. -/
  time : Int64

/-- The clips of standard input whose fields are extracted, from a line number on. -/
def clipWrites (cjson : CJson) (rowNow : Nat → Int64) : Nat → List Bytes → List Write
  | _, [] => []
  | number, line :: rest =>
    match extractClip cjson line with
    | none => clipWrites cjson rowNow (number + 1) rest
    | some (key, path) => ⟨key, path, rowNow number⟩ :: clipWrites cjson rowNow (number + 1) rest

/-- The writes an invocation accepts. -/
def Invocation.writes (cjson : CJson) (run : Invocation) : List Write :=
  match run.mode with
  | .set arg =>
    match parseSetExpr arg with
    | none => []
    | some (key, value) => if key.bytes = [] ∨ value.bytes = [] then [] else [⟨key, value, run.now⟩]
  | .append stdin => clipWrites cjson run.rowNow 0 (lines stdin)
  | _ => []

/-- The key an invocation deletes. -/
def Invocation.deletes (run : Invocation) : Option CStr :=
  match run.mode with
  | .delete key => if key.bytes = [] then none else some key
  | _ => none

/-- The entry a write leaves: it expires the time to live after the time read, or never. -/
def Write.entry (write : Write) (ttl : Int64) : Entry :=
  ⟨write.value, if ttl = 0 then 0 else write.time.toInt + ttl.toInt⟩

/-- What an invocation does to the reference. -/
def Invocation.refer (cjson : CJson) (run : Invocation) (reference : Reference) : Reference :=
  match parseTtl run.ttlArg with
  | none => reference
  | some ttl =>
    match run.deletes with
    | some key => reference.remove key
    | none =>
      (run.writes cjson).foldl (fun reference write => reference.put write.key (write.entry ttl))
        reference

/-- The keys of an invocation are clean, its clips have a path, and no expiration overflows. -/
structure Invocation.Sound (cjson : CJson) (run : Invocation) : Prop where
  cleanWrites : ∀ write ∈ run.writes cjson, Clean write.key
  cleanDelete : ∀ key ∈ run.deletes, Clean key
  nonempty : ∀ write ∈ run.writes cjson, write.value.bytes ≠ []
  exact : ∀ ttl ∈ parseTtl run.ttlArg, ∀ write ∈ run.writes cjson,
    write.time.toInt + ttl.toInt < 2 ^ 63

/-- `--set key=value` writes the value under the key. -/
theorem Invocation.writes_set (cjson : CJson) {run : Invocation} {arg key value : CStr}
    (mode : run.mode = .set arg) (whole : arg.bytes = key.bytes ++ 61 :: value.bytes)
    (named : key.bytes ≠ []) (inner : 61 ∉ key.bytes) (filled : value.bytes ≠ []) :
    run.writes cjson = [⟨key, value, run.now⟩] := by
  have parsed := parseSetExpr_eq_some_iff.mpr ⟨named, inner, whole⟩
  simp [Invocation.writes, mode, parsed, named, filled]

/-- A line that reads as an object with the three fields of a clip names its key and its path. -/
theorem extractClip_of_read {cjson : CJson} {strtod : Bytes → Double} (exact : cjson.Exact strtod)
    {line rest session path : Bytes} {members : List (Bytes × Json)} {ts : Int64}
    (read : Json.read (CStr.ofBytes line).bytes = some (.object members, rest))
    (white : rest.dropWhile isSpace = [])
    (sessionId : firstMember members (.ofBytes (ascii "session_id")) = some (.string session))
    (time : firstMember members (.ofBytes (ascii "ts")) = some (.number (decimal ts.toInt)))
    (artifact : firstMember members (.ofBytes (ascii "path")) = some (.string path))
    (short : (CStr.ofBytes session).bytes.length < 128)
    (safe : ts.toInt.natAbs ≤ 9007199254740991)
    (fits : (CStr.ofBytes path).bytes.length < pathMax) :
    extractClip cjson line = some (ingestKey (.ofBytes session) ts, .ofBytes path) := by
  have first : jsonlGetString cjson (.ofBytes line) (.ofBytes (ascii "session_id")) 128 =
      some (.ofBytes session) := by
    rw [jsonlGetString, getItem_of_read exact read white, sessionId, Option.map_some, itemOf]
    exact if_neg (Nat.not_le.mpr short)
  have second : jsonlGetInt64 cjson (.ofBytes line) (.ofBytes (ascii "ts")) = some ts := by
    apply jsonlGetInt64_decimal exact safe
    rw [getItem_of_read exact read white, time, Option.map_some]
  have third : jsonlGetString cjson (.ofBytes line) (.ofBytes (ascii "path")) pathMax =
      some (.ofBytes path) := by
    rw [jsonlGetString, getItem_of_read exact read white, artifact, Option.map_some, itemOf]
    exact if_neg (Nat.not_le.mpr fits)
  simp only [extractClip, first, second, third]

/-! ## Files that stand for a reference -/

/-- The entry a row stands for. -/
def Row.entry (row : Row) : Entry := ⟨row.value, row.expireAt.toInt⟩

/-- From a time on, the rows a query shows are the entries that show. -/
structure StandsFor (miniz : Miniz) (db : Bytes) (reference : Reference) (since : Int64) :
    Prop where
  complete : Complete db
  shows : ∀ time, since ≤ time → ∀ key,
    (visible (rowsOf miniz db) time key).map Row.entry = reference.look time.toInt key

/-- A row is live when its value is not empty and its entry shows. -/
theorem Row.isLive_iff (row : Row) (now : Int64) :
    row.isLive now = true ↔ row.value.bytes ≠ [] ∧ row.entry.ShowsAt now.toInt := by
  have zero : row.expireAt = 0 ↔ row.expireAt.toInt = 0 := by
    rw [← Int64.toInt_inj]
    rfl
  unfold Row.isLive Row.isTombstone Row.isExpired Entry.ShowsAt Row.entry
  rw [← zero]
  by_cases tombstone : row.value.bytes = []
  · simp [tombstone]
  · by_cases never : row.expireAt = 0
    · simp [tombstone, never]
    · simp [tombstone, never, Int64.le_iff_toInt_le]

/-- A later starting time asks less. -/
theorem StandsFor.mono {miniz : Miniz} {db : Bytes} {reference : Reference} {since later : Int64}
    (stands : StandsFor miniz db reference since) (order : since ≤ later) :
    StandsFor miniz db reference later :=
  ⟨stands.complete, fun time after => stands.shows time (Int64.le_trans order after)⟩

/-- The empty file stands for the empty reference. -/
theorem standsFor_nil (miniz : Miniz) (since : Int64) :
    StandsFor miniz [] (fun _ => none) since :=
  ⟨complete_nil, fun _ _ _ => rfl⟩

/-- A row appended under a clean key is the latest of its key and hides no other. -/
theorem latest_rowsOf_append {miniz : Miniz} (lawful : miniz.Lawful) {db : Bytes}
    (complete : Complete db) {key : CStr} (clean : Clean key) (value : CStr) (expireAt : Int64)
    (other : CStr) :
    latest (rowsOf miniz (db ++ rowLine key.bytes (valueField miniz value) expireAt)) other =
      if key = other then some ⟨key, value, expireAt⟩ else latest (rowsOf miniz db) other := by
  rw [rowsOf_append miniz complete, rowsOf_rowLine lawful clean, latest_append, latest_singleton]
  split <;> rfl

/-- A file with one more row is complete. -/
theorem complete_append_rowLine {miniz : Miniz} {db : Bytes} (complete : Complete db)
    (key value : CStr) (expireAt : Int64) :
    Complete (db ++ rowLine key.bytes (valueField miniz value) expireAt) := by
  rw [rowLine_eq]
  exact complete.append (complete_snoc _)

section Steps

variable {miniz : Miniz} (lawful : miniz.Lawful) {db : Bytes} {reference : Reference}
  {since : Int64} (stands : StandsFor miniz db reference since)

include lawful stands

/-- An appended row puts its entry. -/
theorem StandsFor.put {key value : CStr} (clean : Clean key) (nonempty : value.bytes ≠ [])
    (expireAt : Int64) :
    StandsFor miniz (db ++ rowLine key.bytes (valueField miniz value) expireAt)
      (reference.put key ⟨value, expireAt.toInt⟩) since := by
  refine ⟨complete_append_rowLine stands.complete key value expireAt, ?_⟩
  intro time after other
  have old := stands.shows time after other
  unfold visible at old ⊢
  rw [latest_rowsOf_append lawful stands.complete clean]
  unfold Reference.look Reference.put at *
  by_cases same : key = other
  · subst same
    rw [if_pos rfl, if_pos rfl]
    have live := (⟨key, value, expireAt⟩ : Row).isLive_iff time
    by_cases shows : Entry.ShowsAt ⟨value, expireAt.toInt⟩ time.toInt
    · have alive := live.mpr ⟨nonempty, shows⟩
      simp [Option.filter, alive, shows, Row.entry]
    · have dead : (⟨key, value, expireAt⟩ : Row).isLive time = false := by
        rw [← Bool.not_eq_true, live]
        exact fun both => shows both.2
      simp [Option.filter, dead, shows]
  · rw [if_neg same, if_neg (Ne.symm same)]
    exact old

/-- A tombstone removes the entry. -/
theorem StandsFor.remove {key : CStr} (clean : Clean key) :
    StandsFor miniz (db ++ rowLine key.bytes (valueField miniz .empty) 0)
      (reference.remove key) since := by
  refine ⟨complete_append_rowLine stands.complete key .empty 0, ?_⟩
  intro time after other
  have old := stands.shows time after other
  unfold visible at old ⊢
  rw [latest_rowsOf_append lawful stands.complete clean]
  unfold Reference.look Reference.remove at *
  by_cases same : key = other
  · subst same
    rw [if_pos rfl, if_pos rfl]
    rfl
  · rw [if_neg same, if_neg (Ne.symm same)]
    exact old

/-- A compaction changes no entry that can still show. -/
theorem StandsFor.compact {now : Int64} (order : since ≤ now) (dbPath : CStr) :
    StandsFor miniz (dbRewriteCompact miniz .none .none dbPath now ⟨db, none⟩).2.db reference
      now := by
  generalize run : dbRewriteCompact miniz .none .none dbPath now ⟨db, none⟩ = result
  obtain ⟨status, after⟩ := result
  rcases dbRewriteCompact_outcome lawful run with ⟨-, same⟩ | ⟨-, compacted⟩
  · rw [same]
    exact stands.mono order
  · refine ⟨compacted.complete, ?_⟩
    intro time later key
    rw [← stands.shows time (Int64.le_trans order later) key, visible, compacted.latest_eq,
      scanned_none]
    congr 1
    apply Option.ext
    intro row
    unfold visible
    simp only [Option.filter_eq_some_iff]
    constructor
    · rintro ⟨⟨found, -⟩, live⟩
      exact ⟨found, live⟩
    · rintro ⟨found, live⟩
      exact ⟨⟨found, Row.isLive_mono later live⟩, live⟩

end Steps

/-! ## Invocations -/

/-- The expiration of a write that does not overflow is the exact sum. -/
theorem toInt_expiration {ttl time : Int64} (valid : 0 ≤ ttl)
    (exact : time.toInt + ttl.toInt < 2 ^ 63) :
    (expiration ttl time).toInt = if ttl = 0 then 0 else time.toInt + ttl.toInt := by
  unfold expiration
  split
  · rfl
  · have low := time.le_toInt
    rw [Int64.le_iff_toInt_le] at valid
    have zero : (0 : Int64).toInt = 0 := rfl
    rw [Int64.toInt_add, Int.bmod_eq_of_le (by omega) (by omega)]

/-- An accepted time to live is not negative. -/
theorem nonneg_of_parseTtl {arg : CStr} {ttl : Int64} (parsed : parseTtl arg = some ttl) :
    0 ≤ ttl := by
  unfold parseTtl at parsed
  split at parsed
  · split at parsed
    · contradiction
    · rename_i nonneg
      rw [← Option.some.inj parsed]
      exact Int64.not_lt.mp nonneg
  · contradiction

/-- One accepted write puts its entry. -/
theorem StandsFor.write {miniz : Miniz} (lawful : miniz.Lawful) {db : Bytes}
    {reference : Reference} {since ttl : Int64} (stands : StandsFor miniz db reference since)
    (valid : 0 ≤ ttl) (write : Write) (clean : Clean write.key)
    (nonempty : write.value.bytes ≠ []) (exact : write.time.toInt + ttl.toInt < 2 ^ 63) :
    StandsFor miniz
      (db ++ rowLine write.key.bytes (valueField miniz write.value) (expiration ttl write.time))
      (reference.put write.key (write.entry ttl)) since := by
  have put := stands.put lawful clean nonempty (expiration ttl write.time)
  rw [toInt_expiration valid exact] at put
  exact put

/-- The clips of standard input put their entries in order. -/
theorem StandsFor.clips {miniz : Miniz} (lawful : miniz.Lawful) (cjson : CJson)
    {ttl since : Int64} (valid : 0 ≤ ttl) (rowNow : Nat → Int64) (text : List Bytes)
    (number : Nat) {db : Bytes} {reference : Reference}
    (stands : StandsFor miniz db reference since)
    (sound : ∀ write ∈ clipWrites cjson rowNow number text, Clean write.key ∧
      write.value.bytes ≠ [] ∧ write.time.toInt + ttl.toInt < 2 ^ 63) :
    StandsFor miniz (appendClips miniz cjson ttl rowNow number text db).db
      ((clipWrites cjson rowNow number text).foldl
        (fun reference write => reference.put write.key (write.entry ttl)) reference) since := by
  induction text generalizing number db reference with
  | nil => exact stands
  | cons line rest ih =>
    unfold appendClips
    cases extracted : extractClip cjson line with
    | none =>
      have skipped : clipWrites cjson rowNow number (line :: rest) =
          clipWrites cjson rowNow (number + 1) rest := by
        rw [clipWrites, extracted]
      rw [skipped] at sound ⊢
      exact ih (number + 1) stands sound
    | some clip =>
      obtain ⟨key, path⟩ := clip
      have taken : clipWrites cjson rowNow number (line :: rest) =
          ⟨key, path, rowNow number⟩ :: clipWrites cjson rowNow (number + 1) rest := by
        rw [clipWrites, extracted]
      rw [taken] at sound ⊢
      obtain ⟨clean, nonempty, exact⟩ := sound _ List.mem_cons_self
      simp only [appendDbRow_none]
      exact ih (number + 1) (stands.write lawful valid _ clean nonempty exact)
        fun write member => sound write (List.mem_cons_of_mem _ member)

/-- An invocation keeps what the file stands for. -/
theorem StandsFor.step {miniz : Miniz} (lawful : miniz.Lawful) (cjson : CJson) {db : Bytes}
    {reference : Reference} {since : Int64} (stands : StandsFor miniz db reference since)
    {run : Invocation} (sound : run.Sound cjson) (order : since ≤ run.now) :
    StandsFor miniz (clipStoreMain miniz cjson run db).db (run.refer cjson reference) run.now := by
  have kept := stands.mono order
  obtain ⟨cleanWrites, cleanDelete, nonempty, exact⟩ := sound
  obtain ⟨mode, ttlArg, dbPath, now, rowNow⟩ := run
  cases parsed : parseTtl ttlArg with
  | none =>
    simp only [clipStoreMain, Invocation.refer, parsed]
    exact kept
  | some ttl =>
    have valid := nonneg_of_parseTtl parsed
    have exact := exact ttl parsed
    simp only [clipStoreMain, Invocation.refer, parsed]
    cases mode with
    | get key =>
      show StandsFor miniz (runGet miniz key now db).db reference now
      rw [runGet_db]
      exact kept
    | list =>
      show StandsFor miniz (printRows miniz none now db).db reference now
      rw [printRows_db]
      exact kept
    | withPrefix start =>
      show StandsFor miniz (printRows miniz (some start) now db).db reference now
      rw [printRows_db]
      exact kept
    | compact => exact stands.compact lawful order dbPath
    | delete key =>
      by_cases empty : key.bytes = []
      · simp only [Invocation.deletes, Invocation.writes, runDelete, empty, ↓reduceIte]
        exact kept
      · have clean := cleanDelete key (by simp [Invocation.deletes, empty])
        simp only [Invocation.deletes, runDelete, empty, ↓reduceIte, appendRow_eq]
        exact kept.remove lawful clean
    | set arg =>
      simp only [Invocation.writes] at cleanWrites nonempty exact
      simp only [Invocation.deletes, Invocation.writes, runSet]
      cases split : parseSetExpr arg with
      | none => exact kept
      | some parts =>
        obtain ⟨key, value⟩ := parts
        rw [split] at cleanWrites nonempty exact
        by_cases empty : key.bytes = [] ∨ value.bytes = []
        · simp only [empty, ↓reduceIte]
          exact kept
        · simp only [empty, ↓reduceIte, List.mem_singleton, forall_eq] at cleanWrites nonempty exact
          simp only [empty, ↓reduceIte, appendRow_eq, List.foldl_cons, List.foldl_nil]
          exact kept.write lawful valid ⟨key, value, now⟩ cleanWrites nonempty exact
    | append stdin =>
      have clips : ∀ write ∈ clipWrites cjson rowNow 0 (lines stdin), Clean write.key ∧
          write.value.bytes ≠ [] ∧ write.time.toInt + ttl.toInt < 2 ^ 63 := by
        intro write member
        exact ⟨cleanWrites write member, nonempty write member, exact write member⟩
      exact kept.clips lawful cjson valid rowNow (lines stdin) 0 clips

/-- A history of invocations: the database after all of them. -/
def dbAfter (miniz : Miniz) (cjson : CJson) (history : List Invocation) (db : Bytes) : Bytes :=
  history.foldl (fun db run => (clipStoreMain miniz cjson run db).db) db

/-- A history of invocations: the reference after all of them. -/
def referenceAfter (cjson : CJson) (history : List Invocation) (reference : Reference) :
    Reference :=
  history.foldl (fun reference run => run.refer cjson reference) reference

/-- A history keeps what the file stands for. -/
theorem StandsFor.history {miniz : Miniz} (lawful : miniz.Lawful) (cjson : CJson)
    (history : List Invocation) (sound : ∀ run ∈ history, run.Sound cjson)
    (clock : (history.map Invocation.now).Pairwise (· ≤ ·)) {db : Bytes} {reference : Reference}
    {since : Int64} (stands : StandsFor miniz db reference since)
    (order : ∀ run ∈ history, since ≤ run.now) {now : Int64} (started : since ≤ now)
    (later : ∀ run ∈ history, run.now ≤ now) :
    StandsFor miniz (dbAfter miniz cjson history db) (referenceAfter cjson history reference)
      now := by
  induction history generalizing db reference since with
  | nil => exact stands.mono started
  | cons run rest ih =>
    rw [List.map_cons, List.pairwise_cons] at clock
    have step := stands.step lawful cjson (sound run List.mem_cons_self)
      (order run List.mem_cons_self)
    exact ih (fun next member => sound next (List.mem_cons_of_mem _ member)) clock.2 step
      (fun next member => clock.1 _ (List.mem_map_of_mem member))
      (later run List.mem_cons_self)
      (fun next member => later next (List.mem_cons_of_mem _ member))

/-! ## Queries -/

/-- What `--get` prints for an entry that shows or for none. -/
def printedEntry : Option Entry → Bytes
  | none => []
  | some entry => entry.value.bytes ++ [lf]

/-- A lookup prints the entry that shows. -/
theorem StandsFor.runGet {miniz : Miniz} {db : Bytes} {reference : Reference} {since now : Int64}
    (stands : StandsFor miniz db reference since) (order : since ≤ now) (key : CStr) :
    runGet miniz key now db = ⟨0, printedEntry (reference.look now.toInt key), db⟩ := by
  obtain ⟨index, loaded, answers⟩ := exists_loadLatestRows miniz db
  have shows := stands.shows now order key
  rw [visible, ← answers] at shows
  rw [← shows, Store.runGet, loaded]
  cases got : index.get key with
  | none => simp [got, printedEntry]
  | some row =>
    cases live : row.isLive now with
    | false => simp [got, live, printedEntry, Option.filter]
    | true => simp [got, live, printedEntry, Option.filter, Row.entry]

/-- A listing prints every entry that shows once, and a prefix listing the part of it whose keys
start with the prefix. -/
theorem StandsFor.printRows {miniz : Miniz} {db : Bytes} {reference : Reference}
    {since now : Int64} (stands : StandsFor miniz db reference since) (order : since ≤ now) :
    ∃ shown : List (CStr × CStr), (shown.map Prod.fst).Nodup ∧
      (∀ key value, (key, value) ∈ shown ↔
        (reference.look now.toInt key).map Entry.value = some value) ∧
      printRows miniz none now db =
        ⟨0, shown.flatMap fun row => printedRow row.1 row.2, db⟩ ∧
      ∀ start, printRows miniz (some start) now db =
        ⟨0, (shown.filter fun row => row.1.startsWith start).flatMap fun row =>
          printedRow row.1 row.2, db⟩ := by
  obtain ⟨index, loaded, answers⟩ := exists_loadLatestRows miniz db
  let shown := (index.rows.filter fun row => row.isLive now).map fun row => (row.key, row.value)
  refine ⟨shown, ?_, ?_, ?_, ?_⟩
  · show (List.map Prod.fst (List.map _ _)).Nodup
    rw [List.map_map]
    exact index.rows_nodup.sublist (List.filter_sublist.map Row.key)
  · intro key value
    rw [← stands.shows now order key, visible, ← answers]
    simp only [shown, List.mem_map, List.mem_filter, Option.map_map, Option.map_eq_some_iff,
      Option.filter_eq_some_iff, Prod.mk.injEq, index.mem_rows]
    constructor
    · rintro ⟨row, ⟨got, live⟩, rfl, rfl⟩
      exact ⟨row, ⟨got, live⟩, rfl⟩
    · rintro ⟨row, ⟨got, live⟩, rfl⟩
      have same := RowIndex.key_of_get got
      subst same
      exact ⟨row, ⟨got, live⟩, rfl, rfl⟩
  · simp only [Store.printRows, loaded, shown, List.flatMap_map, Option.all_none,
      List.filter_true]
  · intro start
    simp only [Store.printRows, loaded, shown, List.filter_map, List.flatMap_map, Option.all_some]
    rfl

/-- Queries print exactly what the reference shows at their time. -/
structure Observes (miniz : Miniz) (cjson : CJson) (db : Bytes) (reference : Reference)
    (query : Invocation) : Prop where
  get : ∀ key, clipStoreMain miniz cjson { query with mode := .get key } db =
    ⟨0, printedEntry (reference.look query.now.toInt key), db⟩
  list : ∃ shown : List (CStr × CStr), (shown.map Prod.fst).Nodup ∧
    (∀ key value, (key, value) ∈ shown ↔
      (reference.look query.now.toInt key).map Entry.value = some value) ∧
    clipStoreMain miniz cjson { query with mode := .list } db =
      ⟨0, shown.flatMap fun row => printedRow row.1 row.2, db⟩ ∧
    ∀ start, clipStoreMain miniz cjson { query with mode := .withPrefix start } db =
      ⟨0, (shown.filter fun row => row.1.startsWith start).flatMap fun row =>
        printedRow row.1 row.2, db⟩

/-- After any history of sound invocations from the empty database, under a clock that never goes
back, every query shows exactly what the reference shows. -/
theorem store_refines_reference {miniz : Miniz} (lawful : miniz.Lawful) (cjson : CJson)
    (history : List Invocation) (sound : ∀ run ∈ history, run.Sound cjson)
    (clock : (history.map Invocation.now).Pairwise (· ≤ ·)) (query : Invocation)
    (valid : (parseTtl query.ttlArg).isSome = true)
    (later : ∀ run ∈ history, run.now ≤ query.now) :
    Observes miniz cjson (dbAfter miniz cjson history [])
      (referenceAfter cjson history fun _ => none) query := by
  have stands : StandsFor miniz (dbAfter miniz cjson history [])
      (referenceAfter cjson history fun _ => none) query.now :=
    (standsFor_nil miniz Int64.minValue).history lawful cjson history sound clock
      (fun run _ => Int64.minValue_le run.now) (Int64.minValue_le query.now) later
  obtain ⟨ttl, parsed⟩ := Option.isSome_iff_exists.mp valid
  constructor
  · intro key
    rw [clipStoreMain]
    simp only [parsed]
    exact stands.runGet (Int64.le_refl _) key
  · obtain ⟨shown, distinct, members, list, starts⟩ := stands.printRows (Int64.le_refl _)
    refine ⟨shown, distinct, members, ?_, ?_⟩
    · rw [clipStoreMain]
      simp only [parsed]
      exact list
    · intro start
      rw [clipStoreMain]
      simp only [parsed]
      exact starts start

/-- One line of clip JSON. -/
def clipLine : Bytes := ascii "\x7b\"session_id\":\"s\",\"ts\":7,\"path\":\"v\"\x7d\n"

/-- A JSON library that knows one line of clip JSON. -/
def oneClipJson : CJson where
  parseWithOpts line :=
    if line.bytes = clipLine then
      some (.object [(.ofBytes (ascii "session_id"), .string (.ofBytes (ascii "s"))),
        (.ofBytes (ascii "ts"), .number (.finite 7)),
        (.ofBytes (ascii "path"), .string (.ofBytes (ascii "v")))], [lf])
    else none
  printString text := .ofBytes (ascii "\"" ++ text.bytes ++ ascii "\"")

/-- A row set, a clip appended, the row deleted and the file compacted. -/
def fourRuns : List Invocation :=
  let run (mode : Mode) (now : Int64) : Invocation :=
    ⟨mode, .ofBytes (ascii "3600"), .ofBytes (ascii "clips.db"), now, fun _ => now⟩
  [run (.set (.ofBytes (ascii "k=v"))) 100,
    run (.append clipLine) 110,
    run (.delete (.ofBytes (ascii "k"))) 120,
    run .compact 130]

/-- The four runs are sound. -/
theorem fourRuns_sound : ∀ run ∈ fourRuns, run.Sound oneClipJson := by
  have each : ∀ run ∈ fourRuns, (∀ write ∈ run.writes oneClipJson, Clean write.key) ∧
      (∀ key ∈ run.deletes, Clean key) ∧
      (∀ write ∈ run.writes oneClipJson, write.value.bytes ≠ []) ∧
      parseTtl run.ttlArg = some 3600 ∧
      ∀ write ∈ run.writes oneClipJson, write.time.toInt + 3600 < 2 ^ 63 := by
    decide
  intro run member
  obtain ⟨cleanWrites, cleanDelete, nonempty, anHour, early⟩ := each run member
  refine ⟨cleanWrites, cleanDelete, nonempty, ?_⟩
  intro ttl parsed write accepted
  have same : ttl = 3600 := by
    rw [anHour] at parsed
    exact (Option.some.inj parsed).symm
  rw [same]
  exact early write accepted

/-- What queries show after the four runs. -/
theorem store_refines_reference_fourRuns :
    Observes sampleMiniz oneClipJson (dbAfter sampleMiniz oneClipJson fourRuns [])
      (referenceAfter oneClipJson fourRuns fun _ => none)
      ⟨.list, .ofBytes (ascii "3600"), .ofBytes (ascii "clips.db"), 140, fun _ => 140⟩ :=
  store_refines_reference sampleMiniz_lawful oneClipJson fourRuns fourRuns_sound (by decide) _
    (by decide) (by decide)

end StreamPipeline.Store
