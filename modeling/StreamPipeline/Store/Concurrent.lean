import StreamPipeline.Store.Processes

/-!
# Prompt runs lose no row

A run is prompt when every process that changes the database gets its lock while the path still
leads to the inode it opened. A prompt run leaves the database the processes would leave one
after the other, in the order of their locks, so no acknowledged row is lost. A process that
waited while a compaction renamed a new file over the path works on the old inode, and its rows
are gone with it.
-/

namespace StreamPipeline.Store

open Codec

/-- The inode whose lock a process holds. -/
def Pc.held : Pc → Option Inode
  | .locked fd | .reading fd _ | .loaded fd _ | .copying fd _ _ | .synced fd => some fd
  | .writing out _ | .closing out _ => some out.inode
  | .start | .opened _ | .done _ => none

section Local

variable (miniz : Miniz) (cjson : CJson) (run : Invocation)

/-- The process has still to change the database. -/
def Pc.busy : Pc → Prop
  | .locked _ => run.affects cjson = true
  | .reading _ _ => run.mode.compacts = true
  | .loaded _ _ | .copying _ _ _ | .synced _ => True
  | .writing out left => out.pending ≠ [] ∨ left ≠ []
  | .closing out _ => out.pending ≠ []
  | .start | .opened _ | .done _ => False

/-- The database a busy process will leave. -/
def Pc.settles (files : FileSystem DbName) : Pc → Bytes
  | .locked fd | .reading fd _ => (clipStoreMain miniz cjson run (files.data fd)).db
  | .loaded _ rows => rowLines miniz (rows.filter fun row => row.isLive run.now)
  | .copying _ out left =>
    out.content files ++ rowLines miniz (left.filter fun row => row.isLive run.now)
  | .synced _ => files.content .tmp
  | .writing out left => out.content files ++ rowLines miniz left
  | .closing out _ => out.content files
  | .start | .opened _ | .done _ => []

/-- What a busy process relies on. -/
def Pc.Sound (files : FileSystem DbName) : Pc → Prop
  | .reading fd got => got <+: files.data fd
  | .copying _ out _ => files.entry .tmp = some out.inode ∧ out.Sound files
  | .synced _ => ∃ inode, files.entry .tmp = some inode
  | .writing out _ | .closing out _ => out.Sound files
  | _ => True

/-- A process that has opened the path has read its time to live. -/
def Pc.Ready : Pc → Prop
  | .start | .done _ => True
  | _ => (parseTtl run.ttlArg).isSome = true

variable {miniz cjson run} {files after : FileSystem DbName} {pc next : Pc}

/-- Calls that take or drop no lock keep the lock. -/
theorem Moves.held (moves : Moves miniz cjson run files pc after next) : next.held = pc.held := by
  cases moves <;> rfl

/-- The time to live is read first. -/
theorem Moves.ready (moves : Moves miniz cjson run files pc after next) (ready : pc.Ready run) :
    next.Ready run := by
  cases moves with
  | refuses => trivial
  | opens valid => assumption
  | writes | reads | fills | shows | overlong | loads | truncates | skips | copies | syncs
  | renames | gone | appends | finishes | flushesCopy | flushesWrite | flushesClose => exact ready

/-- A process that is not busy leaves the database alone, and stays so. -/
theorem Moves.idle (moves : Moves miniz cjson run files pc after next)
    (idle : ¬pc.busy cjson run) :
    ¬next.busy cjson run ∧ after.content .db = files.content .db ∧
      ∀ inode, files.entry .db = some inode → after = files := by
  cases moves with
  | refuses => exact ⟨id, rfl, fun _ _ => rfl⟩
  | opens =>
    refine ⟨id, FileSystem.content_openCreate files .db, ?_⟩
    intro inode leads
    rw [FileSystem.openCreate_of_entry leads]
  | writes fd mode =>
    refine ⟨?_, rfl, fun _ _ => rfl⟩
    have none : run.rows cjson = [] := by
      simp only [Pc.busy, Invocation.affects] at idle
      by_contra some
      simp [some] at idle
    simp [Pc.busy, Stream.start, none]
  | reads fd mode =>
    refine ⟨?_, rfl, fun _ _ => rfl⟩
    intro compacts
    exact idle (by simp [Pc.busy, Invocation.affects, show run.mode.compacts = true from compacts])
  | fills => exact ⟨idle, rfl, fun _ _ => rfl⟩
  | shows => exact ⟨by simp [Pc.busy, Stream.start], rfl, fun _ _ => rfl⟩
  | overlong fd got whole compacts | loads fd got index whole compacts => exact absurd compacts idle
  | truncates | skips | copies | syncs | renames | gone | flushesCopy => exact absurd trivial idle
  | appends => exact absurd (.inr (List.cons_ne_nil _ _)) idle
  | finishes out => exact ⟨fun pending => idle (.inl pending), rfl, fun _ _ => rfl⟩
  | flushesWrite out left count =>
    have nothing : out.pending = [] := by
      by_contra pending
      exact idle (.inl pending)
    rw [Stream.flush_of_pending count files nothing]
    exact ⟨idle, rfl, fun _ _ => rfl⟩
  | flushesClose out status count =>
    have nothing : out.pending = [] := Decidable.not_not.mp idle
    rw [Stream.flush_of_pending count files nothing]
    exact ⟨idle, rfl, fun _ _ => rfl⟩

/-- A compaction of a loaded file leaves the lines of its live rows. -/
theorem clipStoreMain_compact (valid : (parseTtl run.ttlArg).isSome = true)
    (compacts : run.mode.compacts = true) {db : Bytes} {index : RowIndex}
    (loaded : loadLatestRows miniz .none .none db = some index) :
    (clipStoreMain miniz cjson run db).db =
      if pathMax ≤ run.dbPath.bytes.length + 4 then db
      else rowLines miniz (index.rows.filter fun row => row.isLive run.now) := by
  obtain ⟨ttl, parsed⟩ := Option.isSome_iff_exists.mp valid
  obtain ⟨text, written⟩ :=
    Option.isSome_iff_exists.mp (writeRows_none miniz run.now 0 index.rows)
  have loaded : loadLatestRows miniz .none CompactFaults.none.load db = some index := loaded
  have wrote : writeRows miniz CompactFaults.none.append run.now 0 index.rows = some text := written
  have mode : run.mode = .compact := by
    cases found : run.mode with
    | compact => rfl
    | append | set | get | delete | list | withPrefix =>
      rw [found] at compacts
      contradiction
  rw [clipStoreMain, parsed]
  simp only [mode, runCompact, dbRewriteCompact, loaded]
  split
  · rfl
  · rw [← writeRows_eq written, wrote]
    rfl

/-- A query leaves the file alone. -/
theorem clipStoreMain_query (quiet : ¬run.mode.Writes) (query : run.mode.compacts = false)
    (db : Bytes) : (clipStoreMain miniz cjson run db).db = db := by
  rw [clipStoreMain]
  cases parseTtl run.ttlArg with
  | none => rfl
  | some ttl =>
    cases mode : run.mode with
    | get key => exact runGet_db miniz key _ _
    | list => exact printRows_db miniz _ _ _
    | withPrefix first => exact printRows_db miniz _ _ _
    | compact =>
      rw [mode] at query
      contradiction
    | append | set | delete =>
      rw [mode] at quiet
      exact absurd trivial quiet

/-- A mode that writes no rows leaves the file alone or compacts it. -/
theorem clipStoreMain_reads (lawful : miniz.Lawful) (quiet : ¬run.mode.Writes) (db : Bytes) :
    (clipStoreMain miniz cjson run db).db = db ∨
      (run.mode.compacts = true ∧ ∃ after : Files,
        (clipStoreMain miniz cjson run db).db = after.db ∧
          Compacted miniz .none run.now ⟨db, none⟩ after) := by
  cases compacts : run.mode.compacts with
  | false => exact .inl (clipStoreMain_query quiet compacts db)
  | true =>
    rw [clipStoreMain]
    cases parseTtl run.ttlArg with
    | none => exact .inl rfl
    | some ttl =>
      cases mode : run.mode with
      | append | set | get | delete | list | withPrefix =>
        rw [mode] at compacts
        contradiction
      | compact =>
        show (runCompact miniz run.dbPath run.now db).db = db ∨ _
        rw [runCompact]
        generalize ran : dbRewriteCompact miniz .none .none run.dbPath run.now ⟨db, none⟩ = result
        obtain ⟨status, after⟩ := result
        rcases dbRewriteCompact_outcome lawful ran with ⟨-, same⟩ | ⟨-, compacted⟩
        · exact .inl same
        · exact .inr ⟨rfl, after, rfl, compacted⟩

/-- The bytes a finished read has got are the file. -/
private theorem read_whole {data got : Bytes} (front : got <+: data)
    (whole : data.drop got.length = []) : got = data := by
  obtain ⟨rest, rfl⟩ := front
  rw [List.drop_left] at whole
  rw [whole, List.append_nil]

/-- A mode that writes rows does not compact. -/
theorem Mode.Writes.compacts {mode : Mode} (writes : mode.Writes) : mode.compacts = false := by
  cases mode with
  | append | set | delete => rfl
  | get | list | withPrefix | compact => contradiction

/-- A mode that writes no rows has none to write. -/
theorem rows_of_not_writes (quiet : ¬run.mode.Writes) : run.rows cjson = [] := by
  unfold Invocation.rows Invocation.deletes Invocation.writes
  split
  · rfl
  · cases found : run.mode with
    | append | set | delete =>
      rw [found] at quiet
      exact absurd trivial quiet
    | get | list | withPrefix | compact => rfl

/-- The lines of rows, line by line. -/
theorem rowLines_cons (row : Row) (rest : List Row) :
    rowLines miniz (row :: rest) = appendedLine miniz row ++ rowLines miniz rest := rfl

/-- A row takes at least one byte. -/
private theorem appendedLine_ne_nil (row : Row) : appendedLine miniz row ≠ [] := by
  rw [appendedLine, rowLine_eq]
  simp

/-- A database whose stream has nothing pending is the stream's content. -/
private theorem written {out : Stream} {count : Nat} {inode : Inode}
    (leads : files.entry .db = some inode) (holds : some out.inode = some inode)
    (nothing : (out.flush count files).2.pending = []) :
    (out.flush count files).1.content .db =
      (out.flush count files).2.content (out.flush count files).1 := by
  have entry : (out.flush count files).1.entry .db = some out.inode := leads.trans holds.symm
  rw [FileSystem.content, entry, Stream.content, nothing, List.append_nil]
  rfl

/-- A busy process goes on towards the database it will leave, or has left it. -/
theorem Moves.busy (moves : Moves miniz cjson run files pc after next)
    (busy : pc.busy cjson run) (ready : pc.Ready run) (sound : pc.Sound files) {inode : Inode}
    (leads : files.entry .db = some inode) (holds : pc.held = some inode) :
    (next.busy cjson run ∧ after.entry .db = files.entry .db ∧ next.Sound after ∧
        next.settles miniz cjson run after = pc.settles miniz cjson run files) ∨
      (¬next.busy cjson run ∧ after.content .db = pc.settles miniz cjson run files) := by
  have here : files.content .db = files.data inode := by rw [FileSystem.content, leads]
  cases moves with
  | refuses => exact absurd busy id
  | opens => exact absurd busy id
  | writes fd mode =>
    have settles := (clipStoreMain_rows miniz cjson mode (files.data fd)).1
    have rows : run.rows cjson ≠ [] := by
      intro none
      simp [Pc.busy, Invocation.affects, none, mode.compacts] at busy
    refine .inl ⟨.inr rows, rfl, .inl rfl, ?_⟩
    simp only [Pc.settles, settles, Stream.content, Stream.start, List.append_nil]
  | reads fd mode =>
    have compacts : run.mode.compacts = true := by
      simpa [Pc.busy, Invocation.affects, rows_of_not_writes mode] using busy
    exact .inl ⟨compacts, rfl, List.nil_prefix, rfl⟩
  | fills fd got count =>
    refine .inl ⟨busy, rfl, ?_, rfl⟩
    obtain ⟨rest, whole⟩ := sound
    rw [Pc.Sound, ← whole, List.drop_left]
    exact (List.prefix_append_right_inj got).mpr (List.take_prefix count rest)
  | shows fd got query =>
    rw [Pc.busy, query] at busy
    contradiction
  | overlong fd got whole compacts noRoom =>
    obtain ⟨index, loaded, -⟩ := exists_loadLatestRows miniz (files.data fd)
    have settles : (clipStoreMain miniz cjson run _).db = _ :=
      clipStoreMain_compact ready compacts loaded
    rw [if_pos noRoom] at settles
    have same : fd = inode := Option.some.inj holds
    refine .inr ⟨by simp [Pc.busy, Stream.start], ?_⟩
    rw [here, Pc.settles, settles, same]
  | loads fd got index whole compacts room loaded =>
    rw [read_whole sound whole] at loaded
    have settles : (clipStoreMain miniz cjson run _).db = _ :=
      clipStoreMain_compact ready compacts loaded
    rw [if_neg room] at settles
    refine .inl ⟨trivial, rfl, trivial, ?_⟩
    simp only [Pc.settles, settles]
  | truncates fd rows =>
    refine .inl ⟨trivial, ?_, ⟨?_, .inl rfl⟩, ?_⟩
    · exact FileSystem.entry_openCreate_of_ne files (by decide)
    · exact FileSystem.entry_openCreate files .tmp
    · simp [Pc.settles, Stream.content, Stream.start, FileSystem.setData]
  | skips fd out row rest dead =>
    refine .inl ⟨trivial, rfl, sound, ?_⟩
    simp only [Pc.settles, List.filter_cons, dead, Bool.false_eq_true, ↓reduceIte]
  | copies fd out row rest live =>
    obtain ⟨content, atEnd⟩ := Stream.appendEnd_content sound.2 (appendedLine miniz row)
    refine .inl ⟨trivial, rfl, ⟨sound.1, atEnd⟩, ?_⟩
    simp only [Pc.settles, content, List.filter_cons, live, ↓reduceIte, rowLines_cons,
      List.append_assoc]
  | syncs fd out =>
    refine .inl ⟨trivial, rfl, ⟨out.inode, sound.1⟩, ?_⟩
    have leads : (out.flushAll files).entry .tmp = some out.inode := sound.1
    show (out.flushAll files).content .tmp = out.content files ++ []
    rw [FileSystem.content, leads, List.append_nil]
    exact Stream.data_flushAll sound.2
  | renames fd after renamed =>
    refine .inr ⟨by simp [Pc.busy, Stream.start], ?_⟩
    exact FileSystem.rename_eq_some renamed
  | gone fd missing =>
    obtain ⟨other, found⟩ := sound
    rw [missing] at found
    contradiction
  | appends out row rest =>
    obtain ⟨content, atEnd⟩ := Stream.appendEnd_content sound (appendedLine miniz row)
    refine .inl ⟨.inl (appendedLine_ne_nil row), rfl, atEnd, ?_⟩
    simp only [Pc.settles, content, rowLines_cons, List.append_assoc]
  | finishes out =>
    have pending : out.pending ≠ [] := busy.resolve_right fun left => left rfl
    refine .inl ⟨pending, rfl, sound, ?_⟩
    simp only [Pc.settles, rowLines, List.flatMap_nil, List.append_nil]
  | flushesCopy fd out left count =>
    obtain ⟨content, atEnd⟩ := Stream.flush_content sound.2 count
    refine .inl ⟨trivial, rfl, ⟨sound.1, atEnd⟩, ?_⟩
    simp only [Pc.settles, content]
  | flushesWrite out left count =>
    obtain ⟨content, atEnd⟩ := Stream.flush_content sound count
    by_cases more : (out.flush count files).2.pending ≠ [] ∨ left ≠ []
    · refine .inl ⟨more, rfl, atEnd, ?_⟩
      simp only [Pc.settles, content]
    · obtain ⟨nothing, none⟩ := not_or.mp more
      refine .inr ⟨more, ?_⟩
      rw [written leads holds (Decidable.not_not.mp nothing), Pc.settles, content,
        Decidable.not_not.mp none]
      simp [rowLines]
  | flushesClose out status count =>
    obtain ⟨content, atEnd⟩ := Stream.flush_content sound count
    by_cases more : (out.flush count files).2.pending ≠ []
    · exact .inl ⟨more, rfl, atEnd, content⟩
    · refine .inr ⟨more, ?_⟩
      rw [written leads holds (Decidable.not_not.mp more), Pc.settles, content]

end Local

section System

variable {ι : Type} (miniz : Miniz) (cjson : CJson) (runs : ι → Invocation)

/-- The database the granted processes leave one after the other. -/
def effect (start : Bytes) (granted : List ι) : Bytes :=
  dbAfter miniz cjson (granted.map runs) start

/-- A busy process holds the lock of the inode behind the path, and will leave what the granted
processes leave one after the other. -/
def Works (start : Bytes) (files : FileSystem DbName) (granted : List ι) (process : ι)
    (pc : Pc) : Prop :=
  pc.busy cjson (runs process) →
    ∃ inode, files.entry .db = some inode ∧ pc.held = some inode ∧ pc.Sound files ∧
      pc.settles miniz cjson (runs process) files = effect miniz cjson runs start granted

/-- What holds in a prompt run. -/
structure Inv (start : Bytes) (world : World ι) : Prop where
  /-- A process holds a lock exactly when it stands where it must. -/
  locks : ∀ process fd, (world.pc process).held = some fd ↔ world.lock fd = some process
  /-- The time to live is read before the path is opened. -/
  ready : ∀ process, (world.pc process).Ready (runs process)
  /-- A busy process works towards the effect of the granted processes. -/
  working : ∀ process,
    Works miniz cjson runs start world.files world.granted process (world.pc process)
  /-- When no process is busy, that effect is there. -/
  settled : (∀ process, ¬(world.pc process).busy cjson (runs process)) →
    world.files.content .db = effect miniz cjson runs start world.granted

variable {miniz cjson runs} {start : Bytes} {world : World ι}

/-- At most one process is busy. -/
theorem Inv.alone (inv : Inv miniz cjson runs start world) {first second : ι}
    (left : (world.pc first).busy cjson (runs first))
    (right : (world.pc second).busy cjson (runs second)) : first = second := by
  obtain ⟨inode, leads, holds, -, -⟩ := inv.working first left
  obtain ⟨other, leadsToo, holdsToo, -, -⟩ := inv.working second right
  have same : inode = other := Option.some.inj (leads.symm.trans leadsToo)
  have firstLock := (inv.locks first inode).mp holds
  have secondLock := (inv.locks second inode).mp (same ▸ holdsToo)
  exact Option.some.inj (firstLock.symm.trans secondLock)

/-- The effect is there when neither a process nor any other is busy. -/
theorem Inv.settled_by (inv : Inv miniz cjson runs start world) {process : ι}
    (here : ¬(world.pc process).busy cjson (runs process))
    (there : ∀ other, other ≠ process → ¬(world.pc other).busy cjson (runs other)) :
    world.files.content .db = effect miniz cjson runs start world.granted := by
  apply inv.settled
  intro other
  by_cases same : other = process
  · rwa [same]
  · exact there other same

/-- A lock that passes between a process and nobody does not concern the others. -/
theorem Inv.locks_update (inv : Inv miniz cjson runs start world) {process : ι} {fd : Inode}
    {owner : Option ι} (before : ∀ other, other ≠ process → world.lock fd ≠ some other)
    (later : ∀ other, other ≠ process → owner ≠ some other) {other : ι} (apart : other ≠ process)
    (inode : Inode) :
    (world.pc other).held = some inode ↔
      Function.update world.lock fd owner inode = some other := by
  by_cases same : inode = fd
  · rw [same, Function.update_self, inv.locks]
    exact iff_of_false (before other apart) (later other apart)
  · rw [Function.update_of_ne same]
    exact inv.locks other inode

/-- One more granted process runs on what the others leave. -/
theorem effect_snoc (granted : List ι) (process : ι) :
    effect miniz cjson runs start (granted ++ [process]) =
      (clipStoreMain miniz cjson (runs process) (effect miniz cjson runs start granted)).db := by
  rw [effect, effect, dbAfter, dbAfter, List.map_append, List.foldl_append]
  rfl

/-- A process that does not change the database changes nothing. -/
theorem effect_of_not_affects {process : ι} (granted : List ι)
    (quiet : (runs process).affects cjson = false) :
    effect miniz cjson runs start (granted ++ [process]) =
      effect miniz cjson runs start granted := by
  rw [effect_snoc]
  rw [Invocation.affects, Bool.or_eq_false_iff] at quiet
  obtain ⟨noRows, noCompaction⟩ := quiet
  have none : (runs process).rows cjson = [] := by simpa using noRows
  by_cases mode : (runs process).mode.Writes
  · have written := (clipStoreMain_rows miniz cjson mode
      (effect miniz cjson runs start granted)).1
    rw [written, none]
    exact List.append_nil _
  · exact clipStoreMain_query mode noCompaction _

/-- The invariant holds before any process starts. -/
theorem inv_initial (miniz : Miniz) (cjson : CJson) (runs : ι → Invocation)
    (files : FileSystem DbName) :
    Inv miniz cjson runs (files.content .db) (World.initial files) where
  locks _ _ := iff_of_false (by simp [World.initial, Pc.held]) (by simp [World.initial])
  ready _ := trivial
  working _ busy := absurd busy id
  settled _ := rfl

variable [DecidableEq ι]

/-- The invariant after one process has moved, from what holds of it and of the others. -/
theorem Inv.moved (inv : Inv miniz cjson runs start world) {files : FileSystem DbName}
    {lock : Inode → Option ι} {granted : List ι} {process : ι} {next : Pc}
    (mine : ∀ fd, next.held = some fd ↔ lock fd = some process)
    (theirs : ∀ other, other ≠ process → ∀ fd,
      (world.pc other).held = some fd ↔ lock fd = some other)
    (ready : next.Ready (runs process))
    (works : Works miniz cjson runs start files granted process next)
    (others : ∀ other, other ≠ process →
      Works miniz cjson runs start files granted other (world.pc other))
    (settled : ¬next.busy cjson (runs process) →
      (∀ other, other ≠ process → ¬(world.pc other).busy cjson (runs other)) →
      files.content .db = effect miniz cjson runs start granted) :
    Inv miniz cjson runs start ⟨files, lock, Function.update world.pc process next, granted⟩ where
  locks := (Function.forall_update_iff world.pc (p := fun other pc =>
    ∀ fd, pc.held = some fd ↔ lock fd = some other)).mpr ⟨mine, theirs⟩
  ready := (Function.forall_update_iff world.pc (p := fun other pc =>
    pc.Ready (runs other))).mpr ⟨ready, fun other _ => inv.ready other⟩
  working := (Function.forall_update_iff world.pc (p := fun other pc =>
    Works miniz cjson runs start files granted other pc)).mpr ⟨works, others⟩
  settled idle := by
    obtain ⟨here, there⟩ := (Function.forall_update_iff world.pc (p := fun other pc =>
      ¬pc.busy cjson (runs other))).mp idle
    exact settled here there

/-- A granted lock. -/
theorem Inv.grant (inv : Inv miniz cjson runs start world) {process : ι} {fd : Inode}
    (opened : world.pc process = .opened fd) (free : world.lock fd = none)
    (prompt : (runs process).affects cjson = true → world.files.entry .db = some fd) :
    Inv miniz cjson runs start
      ⟨world.files, Function.update world.lock fd (some process),
        Function.update world.pc process (.locked fd), world.granted ++ [process]⟩ := by
  have unheld (other : ι) : (world.pc other).held ≠ some fd := by
    rw [ne_eq, inv.locks, free]
    simp
  have waiting : ¬(world.pc process).busy cjson (runs process) := by
    rw [opened]
    exact id
  have quiet (affects : (runs process).affects cjson = true) (other : ι) :
      ¬(world.pc other).busy cjson (runs other) := by
    intro busy
    obtain ⟨inode, leads, holds, -, -⟩ := inv.working other busy
    rw [prompt affects] at leads
    exact unheld other (leads ▸ holds)
  apply inv.moved
  case mine =>
    intro inode
    by_cases same : inode = fd
    · rw [same, Function.update_self]
      exact iff_of_true rfl rfl
    · rw [Function.update_of_ne same, ← inv.locks, opened]
      exact iff_of_false (fun held => same (Option.some.inj held).symm) (by simp [Pc.held])
  case theirs =>
    intro other apart
    exact inv.locks_update (fun other _ => by simp [free])
      (fun other apart mine => apart (Option.some.inj mine).symm) apart
  case ready =>
    have ready := inv.ready process
    rwa [opened] at ready
  case works =>
    intro affects
    have leads := prompt affects
    have settled := inv.settled (quiet affects)
    rw [FileSystem.content, leads] at settled
    refine ⟨fd, leads, rfl, trivial, ?_⟩
    rw [effect_snoc, ← settled]
    rfl
  case others =>
    intro other _ busy
    have calm : (runs process).affects cjson = false := by
      by_contra affects
      exact quiet (by simpa using affects) other busy
    rw [effect_of_not_affects world.granted calm]
    exact inv.working other busy
  case settled =>
    intro here there
    have calm : (runs process).affects cjson = false := by simpa [Pc.busy] using here
    rw [effect_of_not_affects world.granted calm]
    exact inv.settled_by waiting there

/-- A closed stream. -/
theorem Inv.close (inv : Inv miniz cjson runs start world) {process : ι} {out : Stream}
    {status : Nat} (closing : world.pc process = .closing out status) :
    Inv miniz cjson runs start
      ⟨out.flushAll world.files, Function.update world.lock out.inode none,
        Function.update world.pc process (.done status), world.granted⟩ := by
  have holds : (world.pc process).held = some out.inode := by rw [closing]; rfl
  have lock := (inv.locks process out.inode).mp holds
  have calm (other : ι) (apart : other ≠ process) (pending : out.pending ≠ []) :
      ¬(world.pc other).busy cjson (runs other) := by
    intro busy
    exact apart (inv.alone busy (by rw [closing]; exact pending))
  apply inv.moved
  case mine =>
    intro inode
    refine iff_of_false (by simp [Pc.held]) ?_
    by_cases same : inode = out.inode
    · rw [same, Function.update_self]
      simp
    · rw [Function.update_of_ne same, ← inv.locks, holds]
      exact fun held => same (Option.some.inj held).symm
  case theirs =>
    intro other apart
    exact inv.locks_update
      (fun other apart mine => apart (Option.some.inj (lock.symm.trans mine)).symm)
      (fun other _ => by simp) apart
  case ready => trivial
  case works => exact fun busy => absurd busy id
  case others =>
    intro other apart busy
    have nothing : out.pending = [] := by
      by_contra pending
      exact calm other apart pending busy
    rw [Stream.flushAll_of_pending world.files nothing]
    exact inv.working other busy
  case settled =>
    intro _ there
    by_cases pending : out.pending = []
    · rw [Stream.flushAll_of_pending world.files pending]
      apply inv.settled_by _ there
      rw [closing]
      exact fun busy => busy pending
    · obtain ⟨inode, leads, held, sound, settles⟩ :=
        inv.working process (by rw [closing]; exact pending)
      rw [closing] at sound settles
      have entry : (out.flushAll world.files).entry .db = some out.inode :=
        leads.trans (held.symm.trans holds)
      rw [FileSystem.content, entry]
      exact (Stream.data_flushAll sound).trans settles

/-- Any other call. -/
theorem Inv.move (inv : Inv miniz cjson runs start world) {process : ι}
    {after : FileSystem DbName} {next : Pc}
    (moves : Moves miniz cjson (runs process) world.files (world.pc process) after next) :
    Inv miniz cjson runs start
      ⟨after, world.lock, Function.update world.pc process next, world.granted⟩ := by
  have locks : ∀ fd, next.held = some fd ↔ world.lock fd = some process := by
    intro fd
    rw [moves.held]
    exact inv.locks process fd
  have ready := moves.ready (inv.ready process)
  by_cases busy : (world.pc process).busy cjson (runs process)
  · obtain ⟨inode, leads, holds, sound, settles⟩ := inv.working process busy
    have calm (other : ι) (apart : other ≠ process) :
        ¬(world.pc other).busy cjson (runs other) := fun also => apart (inv.alone also busy)
    rcases moves.busy busy (inv.ready process) sound leads holds with
      ⟨still, entry, soundNext, same⟩ | ⟨through, content⟩
    · apply inv.moved locks (fun other _ => inv.locks other) ready
      · exact fun _ => ⟨inode, entry.trans leads, moves.held.trans holds, soundNext,
          same.trans settles⟩
      · exact fun other apart also => absurd also (calm other apart)
      · exact fun idle => absurd still idle
    · apply inv.moved locks (fun other _ => inv.locks other) ready
      · exact fun also => absurd also through
      · exact fun other apart also => absurd also (calm other apart)
      · exact fun _ _ => content.trans settles
  · obtain ⟨idle, content, unchanged⟩ := moves.idle busy
    apply inv.moved locks (fun other _ => inv.locks other) ready
    · exact fun also => absurd also idle
    · intro other _ also
      obtain ⟨inode, leads, rest⟩ := inv.working other also
      rw [unchanged inode leads]
      exact ⟨inode, leads, rest⟩
    · intro _ there
      rw [content]
      exact inv.settled_by busy there

/-- A prompt step keeps the invariant. -/
theorem Inv.step (inv : Inv miniz cjson runs start world) {event : ι × Act}
    (prompt : world.Prompt cjson runs event) {next : World ι}
    (stepped : world.step miniz cjson runs event = some next) :
    Inv miniz cjson runs start next := by
  obtain ⟨process, act⟩ := event
  unfold World.step at stepped
  split at stepped
  · rename_i fd _ opened
    split at stepped
    · rename_i free
      rw [← Option.some.inj stepped]
      exact inv.grant opened free (prompt fd opened)
    · contradiction
  · rename_i out status _ closing
    rw [← Option.some.inj stepped]
    exact inv.close closing
  · obtain ⟨moved, performed, rfl⟩ := Option.map_eq_some_iff.mp stepped
    exact inv.move (perform_moves miniz cjson (runs process) performed)

/-- A prompt run in which every started process has exited leaves the database these processes
leave one after the other, in the order of their locks. -/
theorem prompt_run_sequential (miniz : Miniz) (cjson : CJson) (runs : ι → Invocation)
    {files : FileSystem DbName} {events : List (ι × Act)} {last : World ι}
    (prompt : Runs.Along (World.step miniz cjson runs) (World.Prompt cjson runs)
      (World.initial files) events)
    (ran : Runs.run (World.step miniz cjson runs) (World.initial files) events = some last)
    (quiet : last.Quiet) :
    last.files.content .db =
      dbAfter miniz cjson (last.granted.map runs) (files.content .db) := by
  have inv : Inv miniz cjson runs (files.content .db) last :=
    Runs.invariant (fun _ _ _ inv prompt stepped => inv.step prompt stepped)
      (inv_initial miniz cjson runs files) prompt ran
  apply inv.settled
  intro process
  rcases quiet process with start | ⟨status, done⟩
  · rw [start]
    exact id
  · rw [done]
    exact id

end System

/-! ## One process after the other -/

section History

variable {miniz : Miniz} (lawful : miniz.Lawful) (cjson : CJson)

include lawful

/-- The latest rows after clean rows were appended. -/
theorem latest_rowLines {db : Bytes} (complete : Complete db) {rows : List Row}
    (clean : ∀ row ∈ rows, Clean row.key) (key : CStr) :
    latest (rowsOf miniz (db ++ rowLines miniz rows)) key =
      (latest rows key).or (latest (rowsOf miniz db) key) := by
  rw [rowsOf_append miniz complete, rowsOf_rowLines lawful clean, latest_append]

/-- An invocation leaves a complete file. -/
theorem complete_clipStoreMain (run : Invocation) {db : Bytes} (complete : Complete db) :
    Complete (clipStoreMain miniz cjson run db).db := by
  by_cases writes : run.mode.Writes
  · rw [(clipStoreMain_rows miniz cjson writes db).1]
    exact complete_append_rowLines complete _
  · rcases clipStoreMain_reads lawful writes db with same | ⟨-, after, same, compacted⟩
    · rw [same]
      exact complete
    · rw [same]
      exact compacted.complete

/-- An invocation with clean keys keeps the latest row of a key it does not write, unless it
compacts and finds the row dead. -/
theorem latest_kept {run : Invocation} (clean : ∀ row ∈ run.rows cjson, Clean row.key)
    {db : Bytes} (complete : Complete db) {row : Row}
    (found : latest (rowsOf miniz db) row.key = some row)
    (unwritten : ∀ other ∈ run.rows cjson, other.key ≠ row.key)
    (live : run.mode.compacts = true → row.isLive run.now = true) :
    latest (rowsOf miniz (clipStoreMain miniz cjson run db).db) row.key = some row := by
  by_cases writes : run.mode.Writes
  · have fresh : latest (run.rows cjson) row.key = none := latest_eq_none unwritten
    rw [(clipStoreMain_rows miniz cjson writes db).1, latest_rowLines lawful complete clean, fresh,
      found]
    rfl
  · rcases clipStoreMain_reads lawful writes db with same | ⟨compacts, after, same, compacted⟩
    · rw [same]
      exact found
    · rw [same, compacted.latest_eq, scanned_none]
      show visible (rowsOf miniz db) run.now row.key = some row
      rw [visible, found]
      simp [live compacts]

/-- A series of invocations leaves a complete file. -/
theorem complete_dbAfter (history : List Invocation) {db : Bytes} (complete : Complete db) :
    Complete (dbAfter miniz cjson history db) := by
  induction history generalizing db with
  | nil => exact complete
  | cons run history ih => exact ih (complete_clipStoreMain lawful cjson run complete)

/-- A row an invocation writes is the latest of its key after it, when no later one of its rows has
the key. -/
theorem latest_written {run : Invocation} (clean : ∀ row ∈ run.rows cjson, Clean row.key)
    {db : Bytes} (complete : Complete db) {earlier later : List Row} {row : Row}
    (rows : run.rows cjson = earlier ++ row :: later)
    (unwritten : ∀ other ∈ later, other.key ≠ row.key) :
    latest (rowsOf miniz (clipStoreMain miniz cjson run db).db) row.key = some row := by
  have writes : run.mode.Writes := by
    by_contra quiet
    rw [rows_of_not_writes quiet] at rows
    exact absurd rows.symm (List.append_ne_nil_of_right_ne_nil _ (List.cons_ne_nil _ _))
  have last : latest (run.rows cjson) row.key = some row := by
    rw [rows, List.append_cons, latest_append, latest_eq_none unwritten, latest_append,
      latest_singleton, if_pos rfl]
    rfl
  rw [(clipStoreMain_rows miniz cjson writes db).1, latest_rowLines lawful complete clean, last]
  rfl

/-- A row written by one of a series of invocations is the latest of its key after all of them,
unless its key is written again or a compaction finds it dead. -/
theorem latest_dbAfter (history : List Invocation)
    (clean : ∀ run ∈ history, ∀ row ∈ run.rows cjson, Clean row.key) {db : Bytes}
    (complete : Complete db) {row : Row} (found : latest (rowsOf miniz db) row.key = some row)
    (unwritten : ∀ other ∈ history.flatMap fun run => run.rows cjson, other.key ≠ row.key)
    (live : ∀ run ∈ history, run.mode.compacts = true → row.isLive run.now = true) :
    latest (rowsOf miniz (dbAfter miniz cjson history db)) row.key = some row := by
  induction history generalizing db with
  | nil => exact found
  | cons run history ih =>
    have kept := latest_kept lawful cjson (clean run List.mem_cons_self) complete found
      (fun other member => unwritten other (List.mem_flatMap.mpr ⟨run, List.mem_cons_self, member⟩))
      (live run List.mem_cons_self)
    apply ih (fun next member => clean next (List.mem_cons_of_mem _ member))
      (complete_clipStoreMain lawful cjson run complete) kept
    · intro other member
      rw [List.flatMap_cons] at unwritten
      exact unwritten other (List.mem_append_right _ member)
    · exact fun next member => live next (List.mem_cons_of_mem _ member)

end History

/-- No acknowledged row is lost in a run in which every process that changes the database gets its
lock while the path still leads to the inode it opened, from a complete file and with clean
keys. -/
theorem prompt_run_loses_no_row {ι : Type} [DecidableEq ι] {miniz : Miniz} (lawful : miniz.Lawful)
    (cjson : CJson) (runs : ι → Invocation) (files : FileSystem DbName)
    (complete : Complete (files.content .db))
    (clean : ∀ process, ∀ row ∈ (runs process).rows cjson, Clean row.key)
    (events : List (ι × Act)) (last : World ι)
    (prompt : Runs.Along (World.step miniz cjson runs) (World.Prompt cjson runs)
      (World.initial files) events)
    (ran : Runs.run (World.step miniz cjson runs) (World.initial files) events = some last)
    (quiet : last.Quiet) : last.NoLostRow miniz cjson runs := by
  intro process before after earlier later row order _ rows unwritten
  by_cases died :
      ∃ next ∈ after, (runs next).mode.compacts = true ∧ row.isLive (runs next).now = false
  · exact .inr died
  · left
    have untouched := complete_dbAfter lawful cjson (before.map runs) complete
    have written := latest_written lawful cjson (clean process) untouched rows
      (fun other member => unwritten other (List.mem_append_left _ member))
    have sequential := prompt_run_sequential miniz cjson runs prompt ran quiet
    rw [order, List.map_append, List.map_cons, dbAfter, List.foldl_append, List.foldl_cons]
      at sequential
    rw [sequential]
    apply latest_dbAfter lawful cjson (after.map runs) _
      (complete_clipStoreMain lawful cjson _ untouched) written
    · intro other member
      apply unwritten other
      rw [List.flatMap_map] at member
      exact List.mem_append_right _ member
    · intro run member compacts
      obtain ⟨next, there, rfl⟩ := List.mem_map.mp member
      by_contra dead
      exact died ⟨next, there, compacts, by simpa using dead⟩
    · intro run member
      obtain ⟨next, -, rfl⟩ := List.mem_map.mp member
      exact clean next

/-- A process that sets a row and one that compacts. -/
inductive Racer where
  /-- `--set k=v`. -/
  | writer
  /-- `--gc`. -/
  | compactor
  deriving DecidableEq

/-- The two invocations. -/
def racers : Racer → Invocation
  | .writer => setForever "k=v"
  | .compactor => { setForever "k=v" with mode := .compact }

/-- A directory without files. -/
def noFiles : FileSystem DbName where
  entry _ := none
  data _ := []
  next := 0
  used _ _ found := absurd found (Option.some_ne_none _).symm
  single _ _ _ found := absurd found (Option.some_ne_none _).symm

/-- The end of a run of the two on a fresh directory. -/
def raceEnd (events : List (Racer × Act)) : World Racer :=
  (Runs.run (World.step sampleMiniz oneClipJson racers) (World.initial noFiles) events).getD
    (World.initial noFiles)

/-- The next calls of one of the two. -/
def calls (racer : Racer) (count : Nat) : List (Racer × Act) :=
  List.replicate count (racer, .advance)

/-- The compaction opens the database while the writer holds the lock, and waits for it. -/
def compactorWaits : List (Racer × Act) :=
  calls .writer 2 ++ calls .compactor 1 ++ calls .writer 4 ++ calls .compactor 2 ++
    [(.compactor, .transfer 100)] ++ calls .compactor 6

/-- The row is kept by a compaction that waited for its writer. -/
theorem prompt_run_loses_no_row_compactorWaits :
    (raceEnd compactorWaits).NoLostRow sampleMiniz oneClipJson racers := by
  have exited : (raceEnd compactorWaits).pc .writer = .done 0 ∧
      (raceEnd compactorWaits).pc .compactor = .done 0 := by decide +kernel
  have clean : ∀ process, ∀ row ∈ (racers process).rows oneClipJson, Clean row.key := by
    intro process
    cases process with
    | writer | compactor => decide +kernel
  have prompt : Runs.Along (World.step sampleMiniz oneClipJson racers)
      (World.Prompt oneClipJson racers) (World.initial noFiles) compactorWaits := by
    decide +kernel
  have quiet : (raceEnd compactorWaits).Quiet := by
    intro process
    cases process with
    | writer => exact .inr ⟨0, exited.1⟩
    | compactor => exact .inr ⟨0, exited.2⟩
  exact prompt_run_loses_no_row sampleMiniz_lawful oneClipJson racers noFiles (by decide) clean
    compactorWaits (raceEnd compactorWaits) prompt (Runs.run_eq_getD (by decide +kernel) _) quiet

/-- The writer opens the database while the compaction holds the lock, and waits for it. -/
def writerWaits : List (Racer × Act) :=
  calls .compactor 2 ++ calls .writer 1 ++ calls .compactor 6 ++ calls .writer 5

/-- A writer that waited for a compaction exits with status 0, and its row is nowhere. -/
theorem waiting_writer_loses_row :
    Runs.run (World.step sampleMiniz oneClipJson racers) (World.initial noFiles) writerWaits =
        some (raceEnd writerWaits) ∧
      (raceEnd writerWaits).Quiet ∧
      (raceEnd writerWaits).files.content .db = [] ∧
      ¬(raceEnd writerWaits).NoLostRow sampleMiniz oneClipJson racers := by
  have exited : (raceEnd writerWaits).pc .writer = .done 0 ∧
      (raceEnd writerWaits).pc .compactor = .done 0 := by decide +kernel
  have granted : (raceEnd writerWaits).granted = [.compactor, .writer] := by decide +kernel
  have empty : (raceEnd writerWaits).files.content .db = [] := by decide +kernel
  refine ⟨Runs.run_eq_getD (by decide +kernel) _, ?_, empty, ?_⟩
  · intro process
    cases process with
    | writer => exact .inr ⟨0, exited.1⟩
    | compactor => exact .inr ⟨0, exited.2⟩
  · intro kept
    have row : (racers .writer).rows oneClipJson =
        [] ++ ⟨.ofBytes (ascii "k"), .ofBytes (ascii "v"), 0⟩ :: [] := by decide +kernel
    rcases kept .writer [.compactor] [] [] [] _ granted exited.1 row (by decide) with
      found | ⟨_, never, _⟩
    · rw [empty] at found
      contradiction
    · contradiction

end StreamPipeline.Store
