import StreamPipeline.Lib.Files
import StreamPipeline.Lib.Runs
import StreamPipeline.Store.Frame

/-!
# Processes on one database

Any number of invocations run on one database path, one system call at a time. Each opens the
path, waits for the lock of the inode it opened, works and closes. A compaction reads that inode,
writes the temporary name and renames it over the path, so that the path leads to another inode
while the lock is still held on the old one. No call fails here except a rename of a name that
is gone.
-/

namespace StreamPipeline.Store

open Codec

/-- The two names the processes use. -/
inductive DbName where
  /-- `db_path`. -/
  | db
  /-- `db_path.tmp`. -/
  | tmp
  deriving DecidableEq

/-- The mode rewrites the database. -/
def Mode.compacts : Mode → Bool
  | .compact => true
  | _ => false

/-- Where a process stands in `clip_store_main` and `db_rewrite_compact`. -/
inductive Pc where
  /-- Before `open`. -/
  | start
  /-- Waiting for the lock of the opened inode. -/
  | opened (fd : Inode)
  /-- The lock is granted. -/
  | locked (fd : Inode)
  /-- `load_latest_rows` has read these bytes. -/
  | reading (fd : Inode) (got : Bytes)
  /-- A compaction has its index. -/
  | loaded (fd : Inode) (rows : List Row)
  /-- A compaction writes its live rows to the temporary file. -/
  | copying (fd : Inode) (out : Stream) (left : List Row)
  /-- The temporary file is synced and closed. -/
  | synced (fd : Inode)
  /-- `--set`, `--delete` or the append loop, with the rows still to write. -/
  | writing (out : Stream) (left : List Row)
  /-- Before `fclose`, which also drops the lock. -/
  | closing (out : Stream) (status : Nat)
  /-- The process has exited. -/
  | done (status : Nat)
  deriving DecidableEq

/-- The status of a mode that writes rows: a malformed argument is refused. -/
def Invocation.writeStatus (run : Invocation) : Nat :=
  match run.mode with
  | .set arg =>
    match parseSetExpr arg with
    | none => 1
    | some (key, value) => if key.bytes = [] ∨ value.bytes = [] then 1 else 0
  | .delete key => if key.bytes = [] then 1 else 0
  | _ => 0

/-- What the scheduler lets a process do. -/
inductive Act where
  /-- The next call of the program. -/
  | advance
  /-- `read` fills or `write` empties a stream buffer by some bytes. -/
  | transfer (count : Nat)

section Calls

variable (miniz : Miniz) (cjson : CJson) (run : Invocation)

/-- The line `append_db_row` writes for a row. -/
def appendedLine (row : Row) : Bytes :=
  rowLine row.key.bytes (valueField miniz row.value) row.expireAt

/-- The next call of a process that takes or drops no lock. -/
def proceed (files : FileSystem DbName) : Pc → Option (FileSystem DbName × Pc)
  | .start =>
    match parseTtl run.ttlArg with
    | none => some (files, .done 1)
    | some _ => some ((files.openCreate .db).1, .opened (files.openCreate .db).2)
  | .locked fd =>
    match run.mode with
    | .append _ | .set _ | .delete _ => some (files, .writing (.start fd) (run.rows cjson))
    | .get _ | .list | .withPrefix _ | .compact => some (files, .reading fd [])
  | .reading fd got =>
    if (files.data fd).drop got.length ≠ [] then none
    else
      match loadLatestRows miniz .none .none got with
      | none => some (files, .closing (.start fd) 1)
      | some index =>
        if !run.mode.compacts then some (files, .closing (.start fd) 0)
        else if pathMax ≤ run.dbPath.bytes.length + 4 then some (files, .closing (.start fd) 1)
        else some (files, .loaded fd index.rows)
  | .loaded fd rows =>
    -- `O_TRUNC` empties a temporary file that is already there.
    some ((files.openCreate .tmp).1.setData (files.openCreate .tmp).2 [],
      .copying fd (.start (files.openCreate .tmp).2) rows)
  | .copying fd out [] => some (out.flushAll files, .synced fd)
  | .copying fd out (row :: rest) =>
    if !row.isLive run.now then some (files, .copying fd out rest)
    else
      some ((out.appendEnd (appendedLine miniz row) files).1,
        .copying fd (out.appendEnd (appendedLine miniz row) files).2 rest)
  | .synced fd =>
    match files.rename .tmp .db (by decide) with
    | none => some (files, .closing (.start fd) 1)
    | some after => some (after, .closing (.start fd) 0)
  | .writing out [] => some (files, .closing out run.writeStatus)
  | .writing out (row :: rest) =>
    some ((out.appendEnd (appendedLine miniz row) files).1,
      .writing (out.appendEnd (appendedLine miniz row) files).2 rest)
  | .opened _ | .closing _ _ | .done _ => none

/-- A stream buffer is filled or emptied by some bytes. -/
def moveBytes (count : Nat) (files : FileSystem DbName) : Pc → Option (FileSystem DbName × Pc)
  | .reading fd got =>
    if ((files.data fd).drop got.length).take count = [] then none
    else some (files, .reading fd (got ++ ((files.data fd).drop got.length).take count))
  | .copying fd out left =>
    some ((out.flush count files).1, .copying fd (out.flush count files).2 left)
  | .writing out left => some ((out.flush count files).1, .writing (out.flush count files).2 left)
  | .closing out status =>
    some ((out.flush count files).1, .closing (out.flush count files).2 status)
  | _ => none

/-- One call of a process that takes or drops no lock. -/
def Act.perform (files : FileSystem DbName) (pc : Pc) : Act → Option (FileSystem DbName × Pc)
  | .advance => proceed miniz cjson run files pc
  | .transfer count => moveBytes count files pc

/-- The calls of a process that take or drop no lock, each with its guard. -/
inductive Moves : FileSystem DbName → Pc → FileSystem DbName → Pc → Prop where
  /-- A malformed time to live ends the process before it opens anything. -/
  | refuses (files) (malformed : parseTtl run.ttlArg = none) : Moves files .start files (.done 1)
  /-- `open`. -/
  | opens (files) (valid : (parseTtl run.ttlArg).isSome = true) :
      Moves files .start (files.openCreate .db).1 (.opened (files.openCreate .db).2)
  /-- A mode that writes rows begins. -/
  | writes (files fd) (mode : run.mode.Writes) :
      Moves files (.locked fd) files (.writing (.start fd) (run.rows cjson))
  /-- A mode that reads the database begins. -/
  | reads (files fd) (mode : ¬run.mode.Writes) : Moves files (.locked fd) files (.reading fd [])
  /-- `read`. -/
  | fills (files fd got count) :
      Moves files (.reading fd got) files
        (.reading fd (got ++ ((files.data fd).drop got.length).take count))
  /-- A query has read the whole file. -/
  | shows (files fd got) (query : run.mode.compacts = false) :
      Moves files (.reading fd got) files (.closing (.start fd) 0)
  /-- A compaction finds no room for the temporary name. -/
  | overlong (files fd got) (whole : (files.data fd).drop got.length = [])
      (compacts : run.mode.compacts = true) (noRoom : pathMax ≤ run.dbPath.bytes.length + 4) :
      Moves files (.reading fd got) files (.closing (.start fd) 1)
  /-- A compaction has loaded its index. -/
  | loads (files fd got index) (whole : (files.data fd).drop got.length = [])
      (compacts : run.mode.compacts = true) (room : ¬pathMax ≤ run.dbPath.bytes.length + 4)
      (found : loadLatestRows miniz .none .none got = some index) :
      Moves files (.reading fd got) files (.loaded fd index.rows)
  /-- `open` of the temporary name. -/
  | truncates (files fd rows) :
      Moves files (.loaded fd rows)
        ((files.openCreate .tmp).1.setData (files.openCreate .tmp).2 [])
        (.copying fd (.start (files.openCreate .tmp).2) rows)
  /-- A dead row is left out. -/
  | skips (files fd out row rest) (dead : row.isLive run.now = false) :
      Moves files (.copying fd out (row :: rest)) files (.copying fd out rest)
  /-- A live row is copied. -/
  | copies (files fd out row rest) (live : row.isLive run.now = true) :
      Moves files (.copying fd out (row :: rest))
        (out.appendEnd (appendedLine miniz row) files).1
        (.copying fd (out.appendEnd (appendedLine miniz row) files).2 rest)
  /-- `fflush`, `fsync` and `fclose` of the temporary file. -/
  | syncs (files fd out) : Moves files (.copying fd out []) (out.flushAll files) (.synced fd)
  /-- `rename`. -/
  | renames (files fd after) (renamed : files.rename .tmp .db (by decide) = some after) :
      Moves files (.synced fd) after (.closing (.start fd) 0)
  /-- The temporary name is gone. -/
  | gone (files fd) (missing : files.entry .tmp = none) :
      Moves files (.synced fd) files (.closing (.start fd) 1)
  /-- `append_db_row`. -/
  | appends (files out row rest) :
      Moves files (.writing out (row :: rest)) (out.appendEnd (appendedLine miniz row) files).1
        (.writing (out.appendEnd (appendedLine miniz row) files).2 rest)
  /-- All rows are written. -/
  | finishes (files out) : Moves files (.writing out []) files (.closing out run.writeStatus)
  /-- `write` of a part of a buffer. -/
  | flushesCopy (files fd out left count) :
      Moves files (.copying fd out left) (out.flush count files).1
        (.copying fd (out.flush count files).2 left)
  | flushesWrite (files out left count) :
      Moves files (.writing out left) (out.flush count files).1
        (.writing (out.flush count files).2 left)
  | flushesClose (files out status count) :
      Moves files (.closing out status) (out.flush count files).1
        (.closing (out.flush count files).2 status)

/-- Every call is one of these. -/
theorem perform_moves {files after : FileSystem DbName} {pc next : Pc} {act : Act}
    (moved : act.perform miniz cjson run files pc = some (after, next)) :
    Moves miniz cjson run files pc after next := by
  cases act with
  | transfer count =>
    cases pc with
    | reading fd got =>
      simp only [Act.perform, moveBytes] at moved
      split at moved
      · contradiction
      · cases moved
        exact .fills files fd got count
    | copying fd out left =>
      cases moved
      exact .flushesCopy files fd out left count
    | writing out left =>
      cases moved
      exact .flushesWrite files out left count
    | closing out status =>
      cases moved
      exact .flushesClose files out status count
    | start | opened | locked | loaded | synced | done => contradiction
  | advance =>
    cases pc with
    | opened | closing | done => contradiction
    | start =>
      simp only [Act.perform, proceed] at moved
      split at moved
      · rename_i malformed
        cases moved
        exact .refuses files malformed
      · rename_i ttl valid
        cases moved
        exact .opens files (by rw [valid]; rfl)
    | locked fd =>
      simp only [Act.perform, proceed] at moved
      split at moved <;> rename_i mode <;>
        cases moved
      · exact .writes files fd (by rw [mode]; trivial)
      · exact .writes files fd (by rw [mode]; trivial)
      · exact .writes files fd (by rw [mode]; trivial)
      · exact .reads files fd (by rw [mode]; exact id)
      · exact .reads files fd (by rw [mode]; exact id)
      · exact .reads files fd (by rw [mode]; exact id)
      · exact .reads files fd (by rw [mode]; exact id)
    | reading fd got =>
      simp only [Act.perform, proceed] at moved
      split at moved
      · contradiction
      · rename_i whole
        have whole := Decidable.not_not.mp whole
        obtain ⟨index, loaded, -⟩ := exists_loadLatestRows miniz got
        rw [loaded] at moved
        dsimp only at moved
        split at moved
        · rename_i query
          cases moved
          exact .shows files fd got (by simpa using query)
        · rename_i compacts
          have compacts : run.mode.compacts = true := by simpa using compacts
          split at moved
          · rename_i noRoom
            cases moved
            exact .overlong files fd got whole compacts noRoom
          · rename_i room
            cases moved
            exact .loads files fd got index whole compacts room loaded
    | loaded fd rows =>
      cases moved
      exact .truncates files fd rows
    | copying fd out left =>
      cases left with
      | nil =>
        cases moved
        exact .syncs files fd out
      | cons row rest =>
        simp only [Act.perform, proceed] at moved
        split at moved
        · rename_i dead
          cases moved
          exact .skips files fd out row rest (by simpa using dead)
        · rename_i live
          cases moved
          exact .copies files fd out row rest (by simpa using live)
    | synced fd =>
      simp only [Act.perform, proceed] at moved
      split at moved
      · rename_i failed
        cases moved
        exact .gone files fd (FileSystem.rename_eq_none failed)
      · rename_i renamed
        cases moved
        exact .renames files fd _ renamed
    | writing out left =>
      cases left with
      | nil =>
        cases moved
        exact .finishes files out
      | cons row rest =>
        cases moved
        exact .appends files out row rest

end Calls

/-- The files, the locks and the processes. -/
structure World (ι : Type) where
  /-- The names and inodes. -/
  files : FileSystem DbName
  /-- The process that holds the lock of an inode. -/
  lock : Inode → Option ι
  /-- Where each process stands. -/
  pc : ι → Pc
  /-- The processes in the order in which their locks were granted. -/
  granted : List ι

section System

variable {ι : Type} [DecidableEq ι] (miniz : Miniz) (cjson : CJson) (runs : ι → Invocation)

/-- One call of one process. -/
def World.step (world : World ι) (event : ι × Act) : Option (World ι) :=
  match event.2, world.pc event.1 with
  | .advance, .opened fd =>
    -- `flock` waits while another process holds the lock.
    if world.lock fd = none then
      some {
        files := world.files
        lock := Function.update world.lock fd (some event.1)
        pc := Function.update world.pc event.1 (.locked fd)
        granted := world.granted ++ [event.1] }
    else none
  | .advance, .closing out status =>
    some {
      files := out.flushAll world.files
      lock := Function.update world.lock out.inode none
      pc := Function.update world.pc event.1 (.done status)
      granted := world.granted }
  | act, pc =>
    (act.perform miniz cjson (runs event.1) world.files pc).map fun moved =>
      { world with files := moved.1, pc := Function.update world.pc event.1 moved.2 }

/-- Before any process has started, with some files. -/
def World.initial (files : FileSystem DbName) : World ι where
  files := files
  lock := fun _ => none
  pc := fun _ => .start
  granted := []

/-- Every process has exited or not started. -/
def World.Quiet (world : World ι) : Prop :=
  ∀ process, world.pc process = .start ∨ ∃ status, world.pc process = .done status

/-- No acknowledged row is lost: it is the latest of its key behind the path, unless the key was
written again, later in its run or by a run that was locked later, or a compaction that was locked
later found the row dead. -/
def World.NoLostRow (world : World ι) : Prop :=
  ∀ process before after earlier later row,
    world.granted = before ++ process :: after → world.pc process = .done 0 →
    (runs process).rows cjson = earlier ++ row :: later →
    (∀ other ∈ later ++ after.flatMap fun next => (runs next).rows cjson, other.key ≠ row.key) →
    latest (rowsOf miniz (world.files.content .db)) row.key = some row ∨
      ∃ next ∈ after, (runs next).mode.compacts = true ∧ row.isLive (runs next).now = false

/-- The process will change the database: it writes a row or compacts. -/
def Invocation.affects (run : Invocation) : Bool := !(run.rows cjson).isEmpty || run.mode.compacts

/-- When the lock is granted to a process that will change the database, the path still leads to
the inode the process opened. -/
def World.Prompt (world : World ι) (event : ι × Act) : Prop :=
  ∀ fd, world.pc event.1 = .opened fd → (runs event.1).affects cjson = true →
    world.files.entry .db = some fd

instance (world : World ι) (event : ι × Act) : Decidable (world.Prompt cjson runs event) :=
  match opened : world.pc event.1 with
  | .opened fd =>
    decidable_of_iff ((runs event.1).affects cjson = true → world.files.entry .db = some fd)
      (by simp [World.Prompt, opened])
  | .start | .locked _ | .reading _ _ | .loaded _ _ | .copying _ _ _ | .synced _ | .writing _ _
  | .closing _ _ | .done _ => .isTrue (by simp [World.Prompt, opened])

end System

end StreamPipeline.Store
