import StreamPipeline.Codec.Jsonl
import StreamPipeline.Store.Compact

/-!
# The applet

One invocation opens the database, takes its lock, runs one mode and exits. The modes that write
append rows at the end of the file; the modes that read load the index first. This is the
program without failing calls: the database is its bytes before and after.
-/

namespace StreamPipeline.Store

open Codec

/-- The selected mode with its argument; appending reads clip lines from standard input. -/
inductive Mode where
  /-- Append the clips on standard input. -/
  | append (stdin : Bytes)
  /-- `--set`. -/
  | set (arg : CStr)
  /-- `--get`. -/
  | get (key : CStr)
  /-- `--delete`. -/
  | delete (key : CStr)
  /-- `--list`. -/
  | list
  /-- `--prefix`. -/
  | withPrefix (start : CStr)
  /-- `--compact` and `--gc`. -/
  | compact

/-- One invocation: its arguments and the times it reads. -/
structure Invocation where
  /-- The mode. -/
  mode : Mode
  /-- `--ttl`, as text. -/
  ttlArg : CStr
  /-- The database path. -/
  dbPath : CStr
  /-- The time read at the start. -/
  now : Int64
  /-- The time read for an appended line, by line number. -/
  rowNow : Nat → Int64

/-- What an invocation leaves behind. -/
structure Outcome where
  /-- The exit status. -/
  status : Nat
  /-- Standard output. -/
  output : Bytes
  /-- The database. -/
  db : Bytes
  deriving DecidableEq

/-- The check of `--ttl`: a whole integer that is not negative. -/
def parseTtl (arg : CStr) : Option Int64 :=
  match strtol arg.bytes with
  | some (ttl, []) => if ttl < 0 then none else some ttl
  | _ => none

/-- `ttl == 0 ? 0 : now + ttl`. -/
def expiration (ttl now : Int64) : Int64 := if ttl = 0 then 0 else now + ttl

/-- `parse_set_expr`. -/
def parseSetExpr (arg : CStr) : Option (CStr × CStr) :=
  match cutAt 61 arg.bytes with
  | none => none
  | some (key, value) => if key = [] then none else some (.ofBytes key, .ofBytes value)

/-- An argument names a key and a value when it is the key, an equals sign and the value. -/
theorem parseSetExpr_eq_some_iff {arg key value : CStr} :
    parseSetExpr arg = some (key, value) ↔
      key.bytes ≠ [] ∧ 61 ∉ key.bytes ∧ arg.bytes = key.bytes ++ 61 :: value.bytes := by
  unfold parseSetExpr
  constructor
  · intro named
    split at named
    · contradiction
    · rename_i front back cut
      split at named
      · contradiction
      · rename_i filled
        obtain ⟨rfl, rfl⟩ := Prod.mk.inj (Option.some.inj named)
        obtain ⟨whole, inner⟩ := cutAt_some cut
        have live := arg.nulFree
        rw [whole, List.mem_append, List.mem_cons, not_or, not_or] at live
        rw [CStr.bytes_ofBytes live.1, CStr.bytes_ofBytes live.2.2]
        exact ⟨filled, inner, whole⟩
  · rintro ⟨filled, inner, whole⟩
    rw [whole, cutAt_append inner]
    simp [filled]

/-- The key of an appended clip, `"session_id:ts"`. -/
def ingestKey (session : CStr) (ts : Int64) : CStr :=
  session ++ CStr.ofBytes (ascii ":") ++ CStr.ofWord ts

/-- The fields taken from one line of clip JSON: its key and its path. -/
def extractClip (cjson : CJson) (line : Bytes) : Option (CStr × CStr) :=
  let text := CStr.ofBytes line
  match jsonlGetString cjson text (.ofBytes (ascii "session_id")) 128 with
  | none => none
  | some session =>
    match jsonlGetInt64 cjson text (.ofBytes (ascii "ts")) with
    | none => none
    | some ts =>
      match jsonlGetString cjson text (.ofBytes (ascii "path")) pathMax with
      | none => none
      | some path => some (ingestKey session ts, path)

section Modes

variable (miniz : Miniz) (cjson : CJson)

/-- One row at the end of the file, with the status of the applet. -/
def appendRow (key value : CStr) (expireAt : Int64) (db : Bytes) : Outcome :=
  match appendDbRow miniz .none key value expireAt with
  | none => ⟨1, [], db⟩
  | some line => ⟨0, [], db ++ line⟩

/-- `MODE_GET`. -/
def runGet (key : CStr) (now : Int64) (db : Bytes) : Outcome :=
  match loadLatestRows miniz .none .none db with
  | none => ⟨1, [], db⟩
  | some index =>
    match index.get key with
    | none => ⟨0, [], db⟩
    | some row => ⟨0, if row.isLive now then row.value.bytes ++ [lf] else [], db⟩

/-- `MODE_SET`. -/
def runSet (arg : CStr) (ttl now : Int64) (db : Bytes) : Outcome :=
  match parseSetExpr arg with
  | none => ⟨1, [], db⟩
  | some (key, value) =>
    if key.bytes = [] ∨ value.bytes = [] then ⟨1, [], db⟩
    else appendRow miniz key value (expiration ttl now) db

/-- `MODE_DELETE`. -/
def runDelete (key : CStr) (db : Bytes) : Outcome :=
  if key.bytes = [] then ⟨1, [], db⟩ else appendRow miniz key .empty 0 db

/-- `"%s\t%s\n"`. -/
def printedRow (key value : CStr) : Bytes := key.bytes ++ tab :: (value.bytes ++ [lf])

/-- `print_rows` for `MODE_LIST` and `MODE_PREFIX`. -/
def printRows (start : Option CStr) (now : Int64) (db : Bytes) : Outcome :=
  match loadLatestRows miniz .none .none db with
  | none => ⟨1, [], db⟩
  | some index =>
    let shown := (index.rows.filter fun row => row.isLive now).filter fun row =>
      start.all fun start => row.key.startsWith start
    ⟨0, shown.flatMap fun row => printedRow row.key row.value, db⟩

/-- `MODE_COMPACT`. -/
def runCompact (dbPath : CStr) (now : Int64) (db : Bytes) : Outcome :=
  let result := dbRewriteCompact miniz .none .none dbPath now ⟨db, none⟩
  ⟨if result.1 = 0 then 0 else 1, [], result.2.db⟩

/-- `MODE_APPEND`: the loop over standard input from a line on. -/
def appendClips (ttl : Int64) (rowNow : Nat → Int64) : Nat → List Bytes → Bytes → Outcome
  | _, [], db => ⟨0, [], db⟩
  | number, line :: rest, db =>
    match extractClip cjson line with
    | none => appendClips ttl rowNow (number + 1) rest db
    | some (key, path) =>
      match appendDbRow miniz .none key path (expiration ttl (rowNow number)) with
      | none => ⟨1, [], db⟩
      | some row => appendClips ttl rowNow (number + 1) rest (db ++ row)

/-- `clip_store_main` once the arguments are read and the database is locked. -/
def clipStoreMain (run : Invocation) (db : Bytes) : Outcome :=
  match parseTtl run.ttlArg with
  | none => ⟨1, [], db⟩
  | some ttl =>
    match run.mode with
    | .get key => runGet miniz key run.now db
    | .set arg => runSet miniz arg ttl run.now db
    | .delete key => runDelete miniz key db
    | .list => printRows miniz none run.now db
    | .withPrefix start => printRows miniz (some start) run.now db
    | .compact => runCompact miniz run.dbPath run.now db
    | .append stdin => appendClips miniz cjson ttl run.rowNow 0 (lines stdin) db

/-- Without faults a row is appended and acknowledged. -/
@[simp]
theorem appendRow_eq (key value : CStr) (expireAt : Int64) (db : Bytes) :
    appendRow miniz key value expireAt db =
      ⟨0, [], db ++ rowLine key.bytes (valueField miniz value) expireAt⟩ := by
  rw [appendRow, appendDbRow_none]

/-- A lookup leaves the database alone. -/
@[simp]
theorem runGet_db (key : CStr) (now : Int64) (db : Bytes) : (runGet miniz key now db).db = db := by
  unfold runGet
  split
  · rfl
  · split <;> rfl

/-- A listing leaves the database alone. -/
@[simp]
theorem printRows_db (start : Option CStr) (now : Int64) (db : Bytes) :
    (printRows miniz start now db).db = db := by
  unfold printRows
  split <;> rfl

end Modes

end StreamPipeline.Store
