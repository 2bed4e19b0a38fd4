import StreamPipeline.Store.Concurrent

/-!
# What a query prints among other processes

A query reads the inode it opened, also when a compaction has renamed another file over the path
while it waited. In a prompt run nothing is written to such an inode any more, so the query prints
what it would have printed alone, at one point in the order of the locks: after every process that
had changed the database and exited before the query opened it, and before none that got its lock
after the query had read.
-/

namespace StreamPipeline.Store

open Codec
open FileSystem (detached_of_rename data_setData_of_ne)

/-- The inode a process has read or copies, up to the rename. -/
def Pc.copied : Pc → Option Inode
  | .locked fd | .reading fd _ | .loaded fd _ | .copying fd _ _ | .synced fd => some fd
  | .start | .opened _ | .writing _ _ | .closing _ _ | .done _ => none

section Local

variable {miniz : Miniz} {cjson : CJson} {run : Invocation} {files after : FileSystem DbName}
  {pc next : Pc}

/-- A process still at its old inode was there before. -/
theorem Moves.copied (moves : Moves miniz cjson run files pc after next) {fd : Inode}
    (here : next.copied = some fd) : pc.copied = some fd := by
  cases moves with
  | refuses | opens | writes | shows | overlong | renames | gone | appends | finishes | flushesWrite
  | flushesClose => contradiction
  | reads | fills | loads | truncates | skips | copies | syncs | flushesCopy => exact here

/-- The inode a busy process writes to is not one without a name. -/
theorem out_ne_detached {out : Stream} {fd : Inode} (detached : files.Detached fd)
    {path : DbName} (leads : files.entry path = some out.inode) : fd ≠ out.inode :=
  fun same => detached.nameless path (same ▸ leads)

/-- No process touches an inode without a name. -/
theorem Moves.detached (moves : Moves miniz cjson run files pc after next) {fd : Inode}
    (detached : files.Detached fd) {inode : Inode} (leads : files.entry .db = some inode)
    (works : pc.busy cjson run → pc.held = some inode ∧ pc.Sound files) :
    after.Detached fd ∧ after.data fd = files.data fd ∧ ∃ other, after.entry .db = some other := by
  by_cases busy : pc.busy cjson run
  · have ⟨holds, sound⟩ := works busy
    -- The streams of a compaction lead to the temporary name, all others to the path.
    have written {out : Stream} (bytes : Bytes) {path : DbName}
        (named : files.entry path = some out.inode) :
        (files.setData out.inode bytes).Detached fd ∧
          (files.setData out.inode bytes).data fd = files.data fd ∧
            ∃ other, (files.setData out.inode bytes).entry .db = some other :=
      ⟨⟨detached.nameless, detached.used⟩,
        data_setData_of_ne files (out_ne_detached detached named) bytes, inode, leads⟩
    cases moves with
    | refuses | opens => exact absurd busy id
    | writes | reads | fills | shows | overlong | loads | skips | gone | finishes =>
      exact ⟨detached, rfl, inode, leads⟩
    | truncates held rows =>
      have ⟨apart, other, same⟩ := detached.openCreate .tmp
      refine ⟨⟨apart.nameless, apart.used⟩, ?_, inode, ?_⟩
      · exact (data_setData_of_ne _ other.symm []).trans same
      · exact (FileSystem.entry_openCreate_of_ne files (by decide)).trans leads
    | copies held out row rest live => exact written _ sound.1
    | syncs held out => exact written _ sound.1
    | flushesCopy held out left count => exact written _ sound.1
    | renames held after renamed =>
      have ⟨apart, same⟩ := detached.rename renamed
      have ⟨_, _, other, entry⟩ := detached_of_rename leads renamed
      exact ⟨apart, same, other, entry⟩
    | appends out row rest => exact written _ (leads.trans holds.symm)
    | flushesWrite out left count => exact written _ (leads.trans holds.symm)
    | flushesClose out status count => exact written _ (leads.trans holds.symm)
  · rw [(moves.idle busy).2.2 inode leads]
    exact ⟨detached, rfl, inode, leads⟩

/-- A busy process leaves the path where it leads, or is a compaction that renames and leaves the
old inode without a name. -/
theorem Moves.path (moves : Moves miniz cjson run files pc after next) {fd : Inode}
    (leads : files.entry .db = some fd) (busy : pc.busy cjson run) :
    after.entry .db = some fd ∨
      (pc.copied.isSome = true ∧ after.Detached fd ∧ after.data fd = files.data fd ∧
        ∃ other, after.entry .db = some other) := by
  cases moves with
  | refuses | opens => exact absurd busy id
  | writes | reads | fills | shows | overlong | loads | skips | gone | finishes | copies | syncs
  | flushesCopy | appends | flushesWrite | flushesClose => exact .inl leads
  | truncates => exact .inl ((FileSystem.entry_openCreate_of_ne files (by decide)).trans leads)
  | renames held after renamed => exact .inr ⟨rfl, detached_of_rename leads renamed⟩

/-- A busy process still at its old inode has not written to it. -/
theorem Moves.unwritten (moves : Moves miniz cjson run files pc after next) {fd : Inode}
    (leads : files.entry .db = some fd) (sound : pc.Sound files) (here : next.copied = some fd) :
    after.data fd = files.data fd := by
  have apart {out : Stream} (named : files.entry .tmp = some out.inode) : fd ≠ out.inode := by
    intro same
    have one := files.single .db .tmp fd leads (same ▸ named)
    contradiction
  cases moves with
  | refuses | opens | writes | shows | overlong | renames | gone | appends | finishes | flushesWrite
  | flushesClose => contradiction
  | reads | fills | loads | skips => rfl
  | truncates held rows =>
    have ⟨other, same⟩ := FileSystem.openCreate_of_other leads (show DbName.db ≠ .tmp by decide)
    exact (data_setData_of_ne _ other.symm []).trans same
  | copies held out row rest live => exact data_setData_of_ne files (apart sound.1) _
  | syncs held out => exact data_setData_of_ne files (apart sound.1) _
  | flushesCopy held out left count => exact data_setData_of_ne files (apart sound.1) _

/-- The process holds the lock of the inode it has read or copies. -/
theorem Pc.held_of_copied {fd : Inode} (here : pc.copied = some fd) : pc.held = some fd := by
  cases pc with
  | start | opened | writing | closing | done => contradiction
  | locked | reading | loaded | copying | synced => exact here

end Local

section System

variable {ι : Type} (miniz : Miniz) (cjson : CJson) (runs : ι → Invocation)

/-- The steps of the system, by what the process does. -/
inductive World.Steps [DecidableEq ι] (world : World ι) (process : ι) : World ι → Prop where
  /-- The lock is granted. -/
  | grants (fd) (opened : world.pc process = .opened fd) (free : world.lock fd = none) :
      world.Steps process
        ⟨world.files, Function.update world.lock fd (some process),
          Function.update world.pc process (.locked fd), world.granted ++ [process]⟩
  /-- The stream is closed. -/
  | closes (out status) (closing : world.pc process = .closing out status) :
      world.Steps process
        ⟨out.flushAll world.files, Function.update world.lock out.inode none,
          Function.update world.pc process (.done status), world.granted⟩
  /-- Any other call. -/
  | moves (after next)
      (moved : Moves miniz cjson (runs process) world.files (world.pc process) after next) :
      world.Steps process
        ⟨after, world.lock, Function.update world.pc process next, world.granted⟩

/-- A busy process finds in the inode it has read what the processes granted before it left; those
granted since change nothing. -/
def Intact (start : Bytes) (files : FileSystem DbName) (granted : List ι) (process : ι)
    (pc : Pc) : Prop :=
  pc.busy cjson (runs process) → ∀ fd, pc.copied = some fd →
    ∃ served later, granted = served ++ process :: later ∧
      (∀ other ∈ later, (runs other).affects cjson = false) ∧
      files.data fd = effect miniz cjson runs start served

/-- What holds in a prompt run, with the inodes that are read. -/
structure Serial (start : Bytes) (world : World ι) : Prop where
  inv : Inv miniz cjson runs start world
  intact : ∀ process,
    Intact miniz cjson runs start world.files world.granted process (world.pc process)

/-- It holds before any process starts. -/
theorem serial_initial (files : FileSystem DbName) :
    Serial miniz cjson runs (files.content .db) (World.initial files) where
  inv := inv_initial miniz cjson runs files
  intact _ busy := absurd busy id

variable {miniz cjson runs} {start : Bytes} {world : World ι}

/-- Nobody is busy while the lock of the inode behind the path is free. -/
theorem Inv.quiet (inv : Inv miniz cjson runs start world) {fd : Inode}
    (free : world.lock fd = none) (leads : world.files.entry .db = some fd) (process : ι) :
    ¬(world.pc process).busy cjson (runs process) := by
  intro busy
  have ⟨inode, path, holds, _⟩ := inv.working process busy
  have same : inode = fd := Option.some.inj (path.symm.trans leads)
  have lock := (inv.locks process fd).mp (same ▸ holds)
  rw [free] at lock
  contradiction

variable [DecidableEq ι]

/-- Every step is one of these. -/
theorem World.steps_of_step {world next : World ι} {event : ι × Act}
    (stepped : world.step miniz cjson runs event = some next) :
    world.Steps miniz cjson runs event.1 next := by
  obtain ⟨process, act⟩ := event
  unfold World.step at stepped
  split at stepped
  · rename_i fd _ opened
    split at stepped
    · rename_i free
      rw [← Option.some.inj stepped]
      exact .grants fd opened free
    · contradiction
  · rename_i out status _ closing
    rw [← Option.some.inj stepped]
    exact .closes out status closing
  · obtain ⟨moved, performed, same⟩ := Option.map_eq_some_iff.mp stepped
    rw [← same]
    exact .moves moved.1 moved.2 (perform_moves miniz cjson (runs process) performed)

/-- A prompt step keeps it. -/
theorem Serial.step (serial : Serial miniz cjson runs start world) {event : ι × Act}
    (prompt : world.Prompt cjson runs event) {next : World ι}
    (stepped : world.step miniz cjson runs event = some next) :
    Serial miniz cjson runs start next := by
  refine ⟨serial.inv.step prompt stepped, ?_⟩
  obtain ⟨process, act⟩ := event
  have steps := World.steps_of_step stepped
  clear stepped
  cases steps with
  | grants fd opened free =>
    have quiet (affects : (runs process).affects cjson = true) :=
      serial.inv.quiet free (prompt fd opened affects)
    apply (Function.forall_update_iff world.pc (p := fun other pc => Intact miniz cjson runs start
      world.files (world.granted ++ [process]) other pc)).mpr
    constructor
    · intro affects inode here
      have leads := prompt fd opened affects
      have settled := serial.inv.settled (quiet affects)
      rw [FileSystem.content, leads] at settled
      have same : fd = inode := Option.some.inj here
      exact ⟨world.granted, [], rfl, by simp, same ▸ settled⟩
    · intro other apart busy inode here
      obtain ⟨served, later, order, calm, data⟩ := serial.intact other busy inode here
      have affects : (runs process).affects cjson = false := by
        by_contra affects
        exact quiet (by simpa using affects) other busy
      refine ⟨served, later ++ [process], by rw [order]; simp, ?_, data⟩
      exact List.forall_mem_append.mpr ⟨calm, by simpa using affects⟩
  | closes out status closing =>
    apply (Function.forall_update_iff world.pc (p := fun other pc => Intact miniz cjson runs start
      (out.flushAll world.files) world.granted other pc)).mpr
    constructor
    · exact fun busy => absurd busy id
    · intro other apart busy
      have nothing : out.pending = [] := by
        by_contra pending
        exact apart (serial.inv.alone busy (by rw [closing]; exact pending))
      rw [Stream.flushAll_of_pending world.files nothing]
      exact serial.intact other busy
  | moves after following moved =>
    apply (Function.forall_update_iff world.pc (p := fun other pc => Intact miniz cjson runs start
      after world.granted other pc)).mpr
    constructor
    · intro busy inode here
      have before : (world.pc process).busy cjson (runs process) := by
        by_contra idle
        exact (moved.idle idle).1 busy
      obtain ⟨served, later, order, calm, data⟩ :=
        serial.intact process before inode (moved.copied here)
      obtain ⟨path, leads, holds, sound, _⟩ := serial.inv.working process before
      have same : path = inode :=
        Option.some.inj (holds.symm.trans (Pc.held_of_copied (moved.copied here)))
      exact ⟨served, later, order, calm, (moved.unwritten (same ▸ leads) sound here).trans data⟩
    · intro other apart busy
      obtain ⟨path, leads, _⟩ := serial.inv.working other busy
      have idle : ¬(world.pc process).busy cjson (runs process) :=
        fun also => apart (serial.inv.alone busy also)
      rw [(moved.idle idle).2.2 path leads]
      exact serial.intact other busy

end System

/-! ## One query -/

/-- The process has read everything, or refused its arguments. -/
def Pc.Past : Pc → Prop
  | .closing _ _ | .done _ => True
  | _ => False

/-- The process waits for the lock of an inode or reads it. -/
def Pc.Follows (files : FileSystem DbName) (fd : Inode) : Pc → Prop
  | .opened inode | .locked inode => inode = fd
  | .reading inode got => inode = fd ∧ got <+: files.data fd
  | _ => False

/-- Only the content of the inode matters. -/
theorem Pc.Follows.of_data {files after : FileSystem DbName} {fd : Inode} {pc : Pc}
    (follows : pc.Follows files fd) (same : after.data fd = files.data fd) :
    pc.Follows after fd := by
  cases pc with
  | reading inode got => exact ⟨follows.1, same ▸ follows.2⟩
  | opened | locked => exact follows
  | start | loaded | copying | synced | writing | closing | done => exact follows

/-- A process that follows an inode waits for its lock or holds it. -/
theorem Pc.Follows.opened_or_held {files : FileSystem DbName} {fd : Inode} {pc : Pc}
    (follows : pc.Follows files fd) : pc = .opened fd ∨ pc.held = some fd := by
  cases pc with
  | opened inode => exact .inl (by rw [show inode = fd from follows])
  | locked inode => exact .inr (by rw [Pc.held, show inode = fd from follows])
  | reading inode got => exact .inr (by rw [Pc.held, follows.1])
  | start | loaded | copying | synced | writing | closing | done => exact absurd follows id

/-- The invocation reads the database and prints. -/
def Invocation.Queries (run : Invocation) : Prop := ¬run.mode.Writes ∧ run.mode.compacts = false

/-- A query has nothing to do to the database. -/
theorem Invocation.Queries.not_busy {run : Invocation} (queries : run.Queries) (cjson : CJson)
    {files : FileSystem DbName} {fd : Inode} {pc : Pc} (follows : pc.Follows files fd) :
    ¬pc.busy cjson run := by
  have quiet : run.affects cjson = false := by
    rw [Invocation.affects, rows_of_not_writes queries.1, queries.2]
    rfl
  cases pc with
  | opened => exact id
  | locked => simp [Pc.busy, quiet]
  | reading => simp [Pc.busy, queries.2]
  | start | loaded | copying | synced | writing | closing | done => exact absurd follows id

/-- A query that reads goes on reading the same bytes or is past it. -/
theorem Moves.query {miniz : Miniz} {cjson : CJson} {run : Invocation}
    {files after : FileSystem DbName} {pc next : Pc} {fd : Inode} (queries : run.Queries)
    (moves : Moves miniz cjson run files pc after next) (follows : pc.Follows files fd) :
    next.Past ∨ next.Follows files fd := by
  cases moves with
  | refuses | opens | truncates | skips | copies | syncs | renames | gone | appends | finishes
  | flushesCopy | flushesWrite | flushesClose => exact absurd follows id
  | writes inode mode => exact absurd mode queries.1
  | overlong inode got whole compacts | loads inode got index whole compacts =>
    rw [queries.2] at compacts
    contradiction
  | shows => exact .inl trivial
  | reads => exact .inr ⟨follows, List.nil_prefix⟩
  | fills inode got count =>
    have ⟨same, rest, whole⟩ := follows
    refine .inr ⟨same, ?_⟩
    rw [same, ← whole, List.drop_left]
    exact (List.prefix_append_right_inj got).mpr (List.take_prefix count rest)

section View

variable {ι : Type} (miniz : Miniz) (cjson : CJson) (runs : ι → Invocation)

/-- The process had changed the database and exited. -/
def World.Finished (world : World ι) (process : ι) : Prop :=
  (∃ status, world.pc process = .done status) ∧ (runs process).affects cjson = true

/-- The path leads elsewhere, and the inode holds what some of the granted processes left, all
those among them that had finished. -/
structure Behind (start : Bytes) (opening : World ι) (fd : Inode) (files : FileSystem DbName)
    (granted : List ι) : Prop where
  detached : files.Detached fd
  leads : ∃ inode, files.entry .db = some inode
  /-- A point in the order of the locks. -/
  served : ∃ served rest, granted = served ++ rest ∧
    (∀ process ∈ opening.granted, opening.Finished cjson runs process → process ∈ served) ∧
    files.data fd = effect miniz cjson runs start served

/-- The query is past its read, or reads the inode behind the path or one that was there. -/
def Seen (start : Bytes) (opening : World ι) (fd : Inode) (files : FileSystem DbName)
    (granted : List ι) (pc : Pc) : Prop :=
  pc.Past ∨ pc.Follows files fd ∧
    (files.entry .db = some fd ∨ Behind miniz cjson runs start opening fd files granted)

/-- What holds of a query from the moment it has opened the path. -/
structure View (start : Bytes) (opening : World ι) (reader : ι) (fd : Inode) (world : World ι) :
    Prop where
  serial : Serial miniz cjson runs start world
  final : ∀ process status, opening.pc process = .done status → world.pc process = .done status
  grown : ∀ process ∈ opening.granted, process ∈ world.granted
  seen : Seen miniz cjson runs start opening fd world.files world.granted (world.pc reader)

variable {miniz cjson runs} {start : Bytes} {opening world : World ι} {reader : ι} {fd : Inode}

/-- Nobody else is busy behind the path while a query holds the lock. -/
theorem Inv.idle_of_held (inv : Inv miniz cjson runs start world)
    (leads : world.files.entry .db = some fd) (holding : (world.pc reader).held = some fd)
    {process : ι} (apart : process ≠ reader) : ¬(world.pc process).busy cjson (runs process) := by
  intro busy
  have ⟨inode, path, holds, _⟩ := inv.working process busy
  have same : inode = fd := Option.some.inj (path.symm.trans leads)
  have mine := (inv.locks process fd).mp (same ▸ holds)
  have theirs := (inv.locks reader fd).mp holding
  exact apart (Option.some.inj (mine.symm.trans theirs))

/-- While another process is busy behind the path, a query has not got the lock. -/
theorem Inv.waits (inv : Inv miniz cjson runs start world) {files after : FileSystem DbName}
    (leads : world.files.entry .db = some fd) {process : ι} (apart : process ≠ reader)
    (busy : (world.pc process).busy cjson (runs process))
    (follows : (world.pc reader).Follows files fd) : (world.pc reader).Follows after fd := by
  rcases follows.opened_or_held with waiting | holding
  · rw [waiting]
    rfl
  · exact absurd busy (inv.idle_of_held leads holding apart)

/-- More granted processes come behind. -/
theorem Behind.grant {files : FileSystem DbName} {granted : List ι}
    (behind : Behind miniz cjson runs start opening fd files granted) (process : ι) :
    Behind miniz cjson runs start opening fd files (granted ++ [process]) := by
  have ⟨served, rest, order, finished, content⟩ := behind.served
  refine ⟨behind.detached, behind.leads, served, rest ++ [process], ?_, finished, content⟩
  rw [order, List.append_assoc]

/-- A compaction that renames leaves the query behind, at the point of the order before it. -/
theorem View.behind (view : View miniz cjson runs start opening reader fd world) {process : ι}
    (busy : (world.pc process).busy cjson (runs process))
    (here : (world.pc process).copied = some fd) {after : FileSystem DbName}
    (detached : after.Detached fd) (data : after.data fd = world.files.data fd)
    (leads : ∃ inode, after.entry .db = some inode) :
    Behind miniz cjson runs start opening fd after world.granted := by
  have ⟨served, later, order, calm, content⟩ := view.serial.intact process busy fd here
  refine ⟨detached, leads, served, process :: later, order, ?_, data.trans content⟩
  intro other granted finished
  have member := view.grown other granted
  have ⟨⟨status, done⟩, affects⟩ := finished
  rw [order] at member
  rcases List.mem_append.mp member with inside | rest
  · exact inside
  · rcases List.mem_cons.mp rest with one | later
    · rw [← one, view.final other status done] at busy
      exact absurd busy id
    · rw [calm other later] at affects
      contradiction

/-- The other processes move the query's inode on behind the path, or leave it behind. -/
theorem View.others (view : View miniz cjson runs start opening reader fd world) {process : ι}
    {after : FileSystem DbName} {following : Pc} (apart : process ≠ reader)
    (moved : Moves miniz cjson (runs process) world.files (world.pc process) after following)
    (follows : (world.pc reader).Follows world.files fd)
    (place : world.files.entry .db = some fd ∨
      Behind miniz cjson runs start opening fd world.files world.granted) :
    Seen miniz cjson runs start opening fd after world.granted (world.pc reader) := by
  right
  rcases place with leads | behind
  · by_cases busy : (world.pc process).busy cjson (runs process)
    · refine ⟨view.serial.inv.waits leads apart busy follows, ?_⟩
      refine (moved.path leads busy).imp_right fun left => ?_
      have ⟨copies, detached, data, elsewhere⟩ := left
      have ⟨inode, here⟩ := Option.isSome_iff_exists.mp copies
      have ⟨path, entry, holds, _⟩ := view.serial.inv.working process busy
      have same : inode = fd :=
        (Option.some.inj ((Pc.held_of_copied here).symm.trans holds)).trans
          (Option.some.inj (entry.symm.trans leads))
      exact view.behind busy (same ▸ here) detached data elsewhere
    · rw [(moved.idle busy).2.2 fd leads]
      exact ⟨follows, .inl leads⟩
  · have ⟨inode, leads⟩ := behind.leads
    have ⟨detached, data, elsewhere⟩ := moved.detached behind.detached leads fun busy => by
      have ⟨path, entry, holds, sound, _⟩ := view.serial.inv.working process busy
      have same : path = inode := Option.some.inj (entry.symm.trans leads)
      exact ⟨same ▸ holds, sound⟩
    have ⟨served, rest, order, finished, content⟩ := behind.served
    exact ⟨follows.of_data data, .inr
      ⟨detached, elsewhere, served, rest, order, finished, data.trans content⟩⟩

/-- A closed stream moves the query's inode on behind the path, or does not touch it. -/
theorem View.close (view : View miniz cjson runs start opening reader fd world) {process : ι}
    {out : Stream} {status : Nat} (apart : process ≠ reader)
    (closing : world.pc process = .closing out status)
    (follows : (world.pc reader).Follows world.files fd)
    (place : world.files.entry .db = some fd ∨
      Behind miniz cjson runs start opening fd world.files world.granted) :
    Seen miniz cjson runs start opening fd (out.flushAll world.files) world.granted
      (world.pc reader) := by
  by_cases nothing : out.pending = []
  · rw [Stream.flushAll_of_pending world.files nothing]
    exact .inr ⟨follows, place⟩
  · have busy : (world.pc process).busy cjson (runs process) := by
      rw [closing]
      exact nothing
    right
    rcases place with leads | behind
    · exact ⟨view.serial.inv.waits leads apart busy follows, .inl leads⟩
    · have ⟨inode, leads, holds, _⟩ := view.serial.inv.working process busy
      have named : world.files.entry .db = some out.inode := by
        rw [closing] at holds
        exact leads.trans holds.symm
      have data := data_setData_of_ne world.files (out_ne_detached behind.detached named)
        (writeAt (world.files.data out.inode) out.place out.pending)
      have ⟨served, rest, order, finished, content⟩ := behind.served
      exact ⟨follows.of_data data, .inr ⟨⟨behind.detached.nameless, behind.detached.used⟩,
        behind.leads, served, rest, order, finished, data.trans content⟩⟩

/-- The query itself reads on. -/
theorem seen_reads
    (queries : (runs reader).Queries) {after : FileSystem DbName} {following : Pc}
    (moved : Moves miniz cjson (runs reader) world.files (world.pc reader) after following)
    (follows : (world.pc reader).Follows world.files fd)
    (place : world.files.entry .db = some fd ∨
      Behind miniz cjson runs start opening fd world.files world.granted) :
    Seen miniz cjson runs start opening fd after world.granted following := by
  have ⟨inode, leads⟩ : ∃ inode, world.files.entry .db = some inode :=
    place.elim (fun leads => ⟨fd, leads⟩) Behind.leads
  rw [(moved.idle (queries.not_busy cjson follows)).2.2 inode leads]
  exact (moved.query queries follows).imp_right fun follows => ⟨follows, place⟩

/-- The bytes of a query that has read everything are what the processes before its point of the
order left. -/
theorem View.whole (view : View miniz cjson runs start opening reader fd world)
    (queries : (runs reader).Queries) {inode : Inode} {got : Bytes}
    (reading : world.pc reader = .reading inode got)
    (whole : (world.files.data inode).drop got.length = []) :
    ∃ served rest, world.granted = served ++ rest ∧
      (∀ process ∈ opening.granted, opening.Finished cjson runs process → process ∈ served) ∧
      got = effect miniz cjson runs start served := by
  have seen := view.seen
  rw [reading] at seen
  obtain ⟨follows, place⟩ := seen.resolve_left id
  have same := follows.1
  obtain ⟨tail, data⟩ := follows.2
  have all : got = world.files.data fd := by
    rw [same, ← data, List.drop_left] at whole
    rw [← data, whole, List.append_nil]
  rcases place with leads | behind
  · refine ⟨world.granted, [], (List.append_nil _).symm, fun process member _ =>
      view.grown process member, ?_⟩
    have held : (world.pc reader).held = some fd := by
      rw [reading, Pc.held, same]
    have mine : ¬(world.pc reader).busy cjson (runs reader) := by
      rw [reading]
      exact queries.not_busy cjson follows
    have settled := view.serial.inv.settled_by mine fun process apart =>
      view.serial.inv.idle_of_held leads held apart
    rw [FileSystem.content, leads] at settled
    exact all.trans settled
  · obtain ⟨served, rest, order, finished, content⟩ := behind.served
    exact ⟨served, rest, order, finished, all.trans content⟩

variable [DecidableEq ι]

/-- Exited processes have exited for good. -/
theorem World.Steps.final {process : ι} {next : World ι}
    (steps : world.Steps miniz cjson runs process next) {other : ι} {status : Nat}
    (done : world.pc other = .done status) : next.pc other = .done status := by
  by_cases same : other = process
  · subst same
    cases steps with
    | grants inode opened =>
      rw [opened] at done
      contradiction
    | closes out code closing =>
      rw [closing] at done
      contradiction
    | moves after following moved =>
      rw [done] at moved
      cases moved
  · cases steps with
    | grants | closes | moves => exact (Function.update_of_ne same ..).trans done

/-- Granted processes stay granted. -/
theorem World.Steps.grown {process : ι} {next : World ι}
    (steps : world.Steps miniz cjson runs process next) {other : ι}
    (granted : other ∈ world.granted) : other ∈ next.granted := by
  cases steps with
  | grants => exact List.mem_append_left _ granted
  | closes | moves => exact granted

/-- A query past its read stays there. -/
theorem World.Steps.past {process : ι} {next : World ι}
    (steps : world.Steps miniz cjson runs process next) (past : (world.pc reader).Past) :
    (next.pc reader).Past := by
  by_cases mine : reader = process
  · subst mine
    cases steps with
    | grants inode opened =>
      rw [opened] at past
      exact absurd past id
    | closes =>
      dsimp only
      rw [Function.update_self]
      trivial
    | moves after following moved =>
      dsimp only
      rw [Function.update_self]
      generalize world.pc reader = pc at past moved
      cases moved with
      | flushesClose => trivial
      | refuses | opens | writes | reads | fills | shows | overlong | loads | truncates | skips
      | copies | syncs | renames | gone | appends | finishes | flushesCopy | flushesWrite =>
        exact absurd past id
  · cases steps with
    | grants | closes | moves =>
      dsimp only
      rwa [Function.update_of_ne mine]

/-- A prompt step keeps the view of a query. -/
theorem View.step (view : View miniz cjson runs start opening reader fd world)
    (queries : (runs reader).Queries) {event : ι × Act} (prompt : world.Prompt cjson runs event)
    {next : World ι} (stepped : world.step miniz cjson runs event = some next) :
    View miniz cjson runs start opening reader fd next := by
  have steps := World.steps_of_step stepped
  refine ⟨view.serial.step prompt stepped, ?_, ?_, ?_⟩
  · exact fun process status done => steps.final (view.final process status done)
  · exact fun process granted => steps.grown (view.grown process granted)
  · generalize event.1 = process at steps
    rcases view.seen with past | ⟨follows, place⟩
    · exact .inl (steps.past past)
    · cases steps with
      | grants inode opened free =>
        refine .inr ⟨?_, place.imp_right fun behind => behind.grant process⟩
        by_cases mine : reader = process
        · subst mine
          rw [opened] at follows
          dsimp only
          rw [Function.update_self]
          exact follows
        · dsimp only
          rwa [Function.update_of_ne mine]
      | closes out status closing =>
        have apart : reader ≠ process := by
          intro same
          rw [same, closing] at follows
          exact follows
        dsimp only
        rw [Function.update_of_ne apart]
        exact view.close apart.symm closing follows place
      | moves after following moved =>
        dsimp only
        by_cases mine : reader = process
        · subst mine
          rw [Function.update_self]
          exact seen_reads queries moved follows place
        · rw [Function.update_of_ne mine]
          exact view.others (Ne.symm mine) moved follows place

end View

/-- What the next call of a query prints: its answer on the bytes it has read, when there are no
more. -/
def Pc.answer (miniz : Miniz) (cjson : CJson) (run : Invocation) (files : FileSystem DbName) :
    Pc → Option Bytes
  | .reading fd got =>
    if (files.data fd).drop got.length = [] then some (clipStoreMain miniz cjson run got).output
    else none
  | _ => none

/-- What a query answers in a prompt run: it has read what an initial part of the granted processes
left. -/
theorem exists_served {ι : Type} [DecidableEq ι] {miniz : Miniz} {cjson : CJson}
    {runs : ι → Invocation} {files : FileSystem DbName} {reader : ι}
    (queries : (runs reader).Queries) {before later : List (ι × Act)} {opening last : World ι}
    (prompt : Runs.Along (World.step miniz cjson runs) (World.Prompt cjson runs)
      (World.initial files) (before ++ (reader, .advance) :: later))
    (reached : Runs.run (World.step miniz cjson runs) (World.initial files) before = some opening)
    (waiting : opening.pc reader = .start)
    (ran : Runs.run (World.step miniz cjson runs) opening ((reader, .advance) :: later) =
      some last)
    {printed : Bytes}
    (prints : (last.pc reader).answer miniz cjson (runs reader) last.files = some printed) :
    ∃ served rest, last.granted = served ++ rest ∧
      (∀ process ∈ opening.granted, opening.Finished cjson runs process → process ∈ served) ∧
      (clipStoreMain miniz cjson (runs reader)
        (effect miniz cjson runs (files.content .db) served)).output = printed := by
  have serial : Serial miniz cjson runs (files.content .db) opening :=
    Runs.invariant (fun _ _ _ serial prompt stepped => serial.step prompt stepped)
      (serial_initial miniz cjson runs files) prompt.front reached
  have along := prompt.rest reached
  rw [Runs.run] at ran
  rw [Runs.Along] at along
  cases stepped : opening.step miniz cjson runs (reader, .advance) with
  | none =>
    rw [stepped] at ran
    contradiction
  | some opened =>
    rw [stepped] at ran along
    have steps := World.steps_of_step stepped
    obtain ⟨fd, seen⟩ : ∃ fd, Seen miniz cjson runs (files.content .db) opening fd opened.files
        opened.granted (opened.pc reader) := by
      cases steps with
      | grants inode holding =>
        rw [waiting] at holding
        contradiction
      | closes out status closing =>
        rw [waiting] at closing
        contradiction
      | moves after next moved =>
        dsimp only at moved ⊢
        rw [Function.update_self]
        rw [waiting] at moved
        cases moved with
        | refuses => exact ⟨0, .inl trivial⟩
        | opens =>
          exact ⟨_, .inr ⟨rfl, .inl (FileSystem.entry_openCreate opening.files .db)⟩⟩
    have view : View miniz cjson runs (files.content .db) opening reader fd opened := {
      serial := serial.step along.1 stepped
      final := fun _ _ done => steps.final done
      grown := fun _ granted => steps.grown granted
      seen }
    have view : View miniz cjson runs (files.content .db) opening reader fd last :=
      Runs.invariant (fun _ _ _ view prompt stepped => view.step queries prompt stepped) view
        along.2 ran
    cases place : last.pc reader with
    | reading inode got =>
      rw [place, Pc.answer] at prints
      split at prints
      · rename_i whole
        obtain ⟨served, rest, order, finished, content⟩ := view.whole queries place whole
        rw [content] at prints
        exact ⟨served, rest, order, finished, Option.some.inj prints⟩
      · contradiction
    | start | opened | locked | loaded | copying | synced | writing | closing | done =>
      rw [place] at prints
      contradiction

/-- In every prompt run, a query prints what it would have printed alone on the database that some
processes leave one after the other in the order of their locks: an initial part of those granted
before it read to the end, with every process among them that had changed the database and exited
before the query opened it. -/
theorem query_answers_in_order {ι : Type} [DecidableEq ι] (miniz : Miniz) (cjson : CJson)
    (runs : ι → Invocation) (files : FileSystem DbName) (reader : ι)
    (queries : (runs reader).Queries) (before later : List (ι × Act)) (opening last : World ι)
    (prompt : Runs.Along (World.step miniz cjson runs) (World.Prompt cjson runs)
      (World.initial files) (before ++ (reader, .advance) :: later))
    (reached : Runs.run (World.step miniz cjson runs) (World.initial files) before = some opening)
    (waiting : opening.pc reader = .start)
    (ran : Runs.run (World.step miniz cjson runs) opening ((reader, .advance) :: later) =
      some last)
    (printed : Bytes)
    (prints : (last.pc reader).answer miniz cjson (runs reader) last.files = some printed) :
    ∃ served rest, last.granted = served ++ rest ∧
      (∀ process ∈ opening.granted, opening.Finished cjson runs process → process ∈ served) ∧
      printed = (clipStoreMain miniz cjson (runs reader)
        (dbAfter miniz cjson (served.map runs) (files.content .db))).output := by
  obtain ⟨served, rest, order, finished, answers⟩ :=
    exists_served queries prompt reached waiting ran prints
  exact ⟨served, rest, order, finished, answers.symm⟩

/-- A process that sets a row, one that compacts and one that asks for the row. -/
inductive Party where
  /-- `--set k=v`. -/
  | writer
  /-- `--gc`. -/
  | compactor
  /-- `--get k`. -/
  | reader
  deriving DecidableEq

/-- The three invocations. -/
def parties : Party → Invocation
  | .writer => setForever "k=v"
  | .compactor => { setForever "k=v" with mode := .compact }
  | .reader => { setForever "k=v" with mode := .get (.ofBytes (ascii "k")) }

/-- The end of a run of the three from a world. -/
def partyEnd (world : World Party) (events : List (Party × Act)) : World Party :=
  (Runs.run (World.step sampleMiniz oneClipJson parties) world events).getD world

/-- The writer runs alone. -/
def writerFirst : List (Party × Act) := List.replicate 6 (.writer, .advance)

/-- A compaction renames while the reader waits, and the reader reads the old inode. -/
def renamedUnderReader : List (Party × Act) :=
  List.replicate 3 (.compactor, .advance) ++ [(.compactor, .transfer 100)] ++
    List.replicate 6 (.compactor, .advance) ++ List.replicate 2 (.reader, .advance) ++
    [(.reader, .transfer 100)]

/-- The reader prints the row from the old inode. -/
theorem query_answers_in_order_renamed :
    ∃ served rest,
      (partyEnd (partyEnd (World.initial noFiles) writerFirst)
          ((.reader, .advance) :: renamedUnderReader)).granted = served ++ rest ∧
        (∀ process ∈ (partyEnd (World.initial noFiles) writerFirst).granted,
          (partyEnd (World.initial noFiles) writerFirst).Finished oneClipJson parties process →
            process ∈ served) ∧
        ascii "v\n" = (clipStoreMain sampleMiniz oneClipJson (parties .reader)
          (dbAfter sampleMiniz oneClipJson (served.map parties) (noFiles.content .db))).output :=
  query_answers_in_order sampleMiniz oneClipJson parties noFiles .reader ⟨id, rfl⟩ writerFirst
    renamedUnderReader (partyEnd (World.initial noFiles) writerFirst)
    (partyEnd (partyEnd (World.initial noFiles) writerFirst)
      ((.reader, .advance) :: renamedUnderReader))
    (by decide +kernel) (Runs.run_eq_getD (by decide +kernel) _) (by decide +kernel)
    (Runs.run_eq_getD (by decide +kernel) _) (ascii "v\n") (by decide +kernel)

end StreamPipeline.Store
