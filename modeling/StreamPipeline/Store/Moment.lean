import StreamPipeline.Store.Linear

/-!
# The database at any moment

The processes of a prompt run may be killed at any moment. What is behind the path then is what an
initial part of the granted processes left, one after the other, with at most the first bytes of
the rows of the next one behind it. A compaction shows nothing before its rename and everything
after it.
-/

namespace StreamPipeline.Store

open Codec

section Local

variable {miniz : Miniz} {cjson : CJson} {run : Invocation} {files after : FileSystem DbName}
  {pc next : Pc}

/-- A part of a buffer goes to the end of the file. -/
theorem prefix_flush {out : Stream} (sound : out.Sound files) (count : Nat) :
    files.data out.inode <+: (out.flush count files).1.data out.inode := by
  rcases sound with nothing | atEnd
  · rw [Stream.flush_of_pending count files nothing]
  · have written : (out.flush count files).1.data out.inode =
        files.data out.inode ++ out.pending.take count := by
      rw [Stream.flush, atEnd, writeAt_end]
      exact Function.update_self ..
    rw [written]
    exact List.prefix_append _ _

/-- A whole buffer goes to the end of the file. -/
theorem prefix_flushAll {out : Stream} (sound : out.Sound files) :
    files.data out.inode <+: (out.flushAll files).data out.inode := by
  rw [Stream.data_flushAll sound]
  exact List.prefix_append _ _

/-- A busy process that stays busy only appends to the inode it has locked. -/
theorem Moves.appends_only (moves : Moves miniz cjson run files pc after next) {fd : Inode}
    (leads : files.entry .db = some fd) (holds : pc.held = some fd) (sound : pc.Sound files)
    (busy : next.busy cjson run) : files.data fd <+: after.data fd := by
  by_cases here : next.copied = some fd
  · rw [moves.unwritten leads sound here]
  · cases moves with
    | refuses | opens => contradiction
    | writes | shows | overlong | gone | finishes => exact List.prefix_rfl
    | reads | fills | loads | truncates | skips | copies | syncs | flushesCopy =>
      exact absurd holds here
    | renames held after renamed => exact absurd rfl busy
    | appends out row rest =>
      have same : out.inode = fd := Option.some.inj holds
      rw [← same]
      exact prefix_flushAll sound
    | flushesWrite out left count | flushesClose out status count =>
      have same : out.inode = fd := Option.some.inj holds
      rw [← same]
      exact prefix_flush sound count

/-- A busy process past its old inode is one that writes rows. -/
theorem Moves.writes_only (moves : Moves miniz cjson run files pc after next)
    (busy : next.busy cjson run) (past : next.copied = none) :
    pc.copied = none ∨ run.mode.Writes := by
  cases moves with
  | refuses | opens => exact absurd busy id
  | writes fd mode => exact .inr mode
  | shows | overlong | renames | gone => exact absurd rfl busy
  | reads | fills | loads | truncates | skips | copies | syncs | flushesCopy => contradiction
  | appends | finishes | flushesWrite | flushesClose => exact .inl rfl

end Local

section System

variable {ι : Type} (miniz : Miniz) (cjson : CJson) (runs : ι → Invocation)

/-- The inode a busy process has locked begins with what the processes granted before it left;
those granted since change nothing. -/
def Extends (start : Bytes) (files : FileSystem DbName) (granted : List ι) (process : ι)
    (pc : Pc) : Prop :=
  pc.busy cjson (runs process) → ∀ fd, pc.held = some fd →
    ∃ served later, granted = served ++ process :: later ∧
      (∀ other ∈ later, (runs other).affects cjson = false) ∧
      effect miniz cjson runs start served <+: files.data fd ∧
      (pc.copied = none → (runs process).mode.Writes)

/-- What holds in a prompt run, with the inodes that are written. -/
structure Layered (start : Bytes) (world : World ι) : Prop where
  serial : Serial miniz cjson runs start world
  beneath : ∀ process,
    Extends miniz cjson runs start world.files world.granted process (world.pc process)

/-- It holds before any process starts. -/
theorem layered_initial (files : FileSystem DbName) :
    Layered miniz cjson runs (files.content .db) (World.initial files) where
  serial := serial_initial miniz cjson runs files
  beneath _ busy := absurd busy id

variable {miniz cjson runs} {start : Bytes} {world : World ι}

/-- A process that does not change the database may be granted its lock behind the others. -/
theorem Extends.grant {files : FileSystem DbName} {granted : List ι} {process other : ι} {pc : Pc}
    (beneath : Extends miniz cjson runs start files granted other pc)
    (calm : pc.busy cjson (runs other) → (runs process).affects cjson = false) :
    Extends miniz cjson runs start files (granted ++ [process]) other pc := by
  intro busy fd holds
  obtain ⟨served, later, order, quiet, data⟩ := beneath busy fd holds
  refine ⟨served, later ++ [process], by rw [order]; simp, ?_, data⟩
  exact List.forall_mem_append.mpr ⟨quiet, by simpa using calm busy⟩

variable [DecidableEq ι]

/-- A prompt step keeps it. -/
theorem Layered.step (layered : Layered miniz cjson runs start world) {event : ι × Act}
    (prompt : world.Prompt cjson runs event) {next : World ι}
    (stepped : world.step miniz cjson runs event = some next) :
    Layered miniz cjson runs start next := by
  have serial := layered.serial
  refine ⟨serial.step prompt stepped, ?_⟩
  obtain ⟨process, act⟩ := event
  have steps := World.steps_of_step stepped
  clear stepped
  cases steps with
  | grants fd opened free =>
    apply (Function.forall_update_iff world.pc (p := fun other pc => Extends miniz cjson runs start
      world.files (world.granted ++ [process]) other pc)).mpr
    constructor
    · intro affects inode here
      have leads := prompt fd opened affects
      have settled := serial.inv.settled (serial.inv.quiet free leads)
      rw [FileSystem.content, leads] at settled
      have same : fd = inode := Option.some.inj here
      refine ⟨world.granted, [], rfl, by simp, ?_, fun past => by contradiction⟩
      rw [← same, ← settled]
    · intro other apart
      refine (layered.beneath other).grant fun busy => ?_
      by_contra affects
      have leads := prompt fd opened (by simpa using affects)
      exact serial.inv.quiet free leads other busy
  | closes out status closing =>
    apply (Function.forall_update_iff world.pc (p := fun other pc => Extends miniz cjson runs start
      (out.flushAll world.files) world.granted other pc)).mpr
    constructor
    · exact fun busy => absurd busy id
    · intro other apart busy
      have nothing : out.pending = [] := by
        by_contra pending
        exact apart (serial.inv.alone busy (by rw [closing]; exact pending))
      rw [Stream.flushAll_of_pending world.files nothing]
      exact layered.beneath other busy
  | moves after following moved =>
    apply (Function.forall_update_iff world.pc (p := fun other pc => Extends miniz cjson runs start
      after world.granted other pc)).mpr
    constructor
    · intro busy inode here
      have before : (world.pc process).busy cjson (runs process) := by
        by_contra idle
        exact (moved.idle idle).1 busy
      obtain ⟨path, leads, holds, sound, _⟩ := serial.inv.working process before
      have same : path = inode := by
        rw [moved.held, holds] at here
        exact Option.some.inj here
      obtain ⟨served, later, order, calm, data, writes⟩ :=
        layered.beneath process before inode (same ▸ holds)
      refine ⟨served, later, order, calm,
        data.trans (moved.appends_only (same ▸ leads) (same ▸ holds) sound busy), ?_⟩
      exact fun past => (moved.writes_only busy past).elim writes id
    · intro other apart busy
      obtain ⟨path, leads, _⟩ := serial.inv.working other busy
      have idle : ¬(world.pc process).busy cjson (runs process) :=
        fun also => apart (serial.inv.alone busy also)
      rw [(moved.idle idle).2.2 path leads]
      exact layered.beneath other busy

omit [DecidableEq ι] in
/-- Processes that change nothing do not count. -/
theorem effect_append_calm (granted : List ι) {later : List ι}
    (calm : ∀ other ∈ later, (runs other).affects cjson = false) :
    effect miniz cjson runs start (granted ++ later) = effect miniz cjson runs start granted := by
  induction later generalizing granted with
  | nil => rw [List.append_nil]
  | cons process later ih =>
    have quiet := calm process List.mem_cons_self
    have rest := ih (granted ++ [process]) fun other member =>
      calm other (List.mem_cons_of_mem process member)
    rw [List.append_assoc, List.singleton_append] at rest
    rw [rest, effect_of_not_affects granted quiet]

omit [DecidableEq ι] in
/-- A finished process is not behind a busy one. -/
theorem finished_served {process : ι} (busy : (world.pc process).busy cjson (runs process))
    {served later : List ι} (order : world.granted = served ++ process :: later)
    (calm : ∀ other ∈ later, (runs other).affects cjson = false) :
    ∀ other ∈ world.granted, world.Finished cjson runs other → other ∈ served := by
  intro other member finished
  have ⟨⟨status, done⟩, affects⟩ := finished
  rw [order] at member
  rcases List.mem_append.mp member with inside | rest
  · exact inside
  · rcases List.mem_cons.mp rest with one | later
    · rw [← one, done] at busy
      exact absurd busy id
    · rw [calm other later] at affects
      contradiction

omit [DecidableEq ι] in
/-- What is behind the path while a process is busy. -/
theorem Layered.content (layered : Layered miniz cjson runs start world) {process : ι}
    (busy : (world.pc process).busy cjson (runs process)) :
    ∃ served later part, world.granted = served ++ process :: later ∧
      (∀ other ∈ later, (runs other).affects cjson = false) ∧
      world.files.content .db = effect miniz cjson runs start served ++ part ∧
      (part ≠ [] → part <+: rowLines miniz ((runs process).rows cjson)) := by
  obtain ⟨fd, leads, holds, sound, settles⟩ := layered.serial.inv.working process busy
  have here : world.files.content .db = world.files.data fd := by rw [FileSystem.content, leads]
  cases past : (world.pc process).copied with
  | some inode =>
    obtain ⟨served, later, order, calm, data⟩ := layered.serial.intact process busy inode past
    have same : inode = fd :=
      Option.some.inj ((Pc.held_of_copied past).symm.trans holds)
    refine ⟨served, later, [], order, calm, ?_, fun some => absurd rfl some⟩
    rw [here, List.append_nil, ← same, data]
  | none =>
    obtain ⟨served, later, order, calm, ⟨part, data⟩, writes⟩ :=
      layered.beneath process busy fd holds
    refine ⟨served, later, part, order, calm, here.trans data.symm, fun _ => ?_⟩
    have all : effect miniz cjson runs start world.granted =
        effect miniz cjson runs start served ++ rowLines miniz ((runs process).rows cjson) := by
      rw [order, List.append_cons, effect_append_calm _ calm, effect_snoc,
        (clipStoreMain_rows miniz cjson (writes past) _).1]
    -- What is written, what is pending and what is left make up the rows of the process.
    have whole : ∃ rest, world.files.data fd ++ rest =
        (world.pc process).settles miniz cjson (runs process) world.files := by
      cases place : world.pc process with
      | start | opened | done =>
        rw [place] at busy
        exact absurd busy id
      | locked | reading | loaded | copying | synced =>
        rw [place] at past
        contradiction
      | writing out left =>
        rw [place] at holds
        have same : out.inode = fd := Option.some.inj holds
        refine ⟨out.pending ++ rowLines miniz left, ?_⟩
        rw [Pc.settles, Stream.content, same, List.append_assoc]
      | closing out status =>
        rw [place] at holds
        have same : out.inode = fd := Option.some.inj holds
        refine ⟨out.pending, ?_⟩
        rw [Pc.settles, Stream.content, same]
    obtain ⟨rest, whole⟩ := whole
    rw [settles, all, ← data, List.append_assoc] at whole
    exact ⟨rest, List.append_cancel_left whole⟩

end System

/-- At every moment of every prompt run, and so after all its processes are killed there: behind the
path is what an initial part of the granted processes leave one after the other, with all of them
that have changed the database and exited, followed by at most the first bytes of the rows of the
next granted process. -/
theorem killed_leaves_prefix {ι : Type} [DecidableEq ι] (miniz : Miniz) (cjson : CJson)
    (runs : ι → Invocation) (files : FileSystem DbName) (events : List (ι × Act))
    (last : World ι)
    (prompt : Runs.Along (World.step miniz cjson runs) (World.Prompt cjson runs)
      (World.initial files) events)
    (ran : Runs.run (World.step miniz cjson runs) (World.initial files) events = some last) :
    ∃ served rest part, last.granted = served ++ rest ∧
      (∀ process ∈ last.granted, last.Finished cjson runs process → process ∈ served) ∧
      last.files.content .db =
        dbAfter miniz cjson (served.map runs) (files.content .db) ++ part ∧
      (part ≠ [] → ∃ writer later, rest = writer :: later ∧
        part <+: rowLines miniz ((runs writer).rows cjson)) := by
  have layered : Layered miniz cjson runs (files.content .db) last :=
    Runs.invariant (fun _ _ _ layered prompt stepped => layered.step prompt stepped)
      (layered_initial miniz cjson runs files) prompt ran
  by_cases working : ∃ process, (last.pc process).busy cjson (runs process)
  · obtain ⟨process, busy⟩ := working
    obtain ⟨served, later, part, order, calm, content, rows⟩ := layered.content busy
    exact ⟨served, process :: later, part, order, finished_served busy order calm, content,
      fun some => ⟨process, later, rfl, rows some⟩⟩
  · have settled := layered.serial.inv.settled (not_exists.mp working)
    refine ⟨last.granted, [], [], (List.append_nil _).symm, fun _ member _ => member, ?_,
      fun some => absurd rfl some⟩
    rw [settled, List.append_nil]
    rfl

/-- The writer has written three bytes of its row, and a compaction waits. -/
def halfWritten : List (Racer × Act) :=
  calls .writer 4 ++ calls .compactor 1 ++ [(.writer, .transfer 3)]

/-- Both are killed there. -/
theorem killed_leaves_prefix_halfWritten :
    ∃ served rest part, (raceEnd halfWritten).granted = served ++ rest ∧
      (∀ process ∈ (raceEnd halfWritten).granted,
        (raceEnd halfWritten).Finished oneClipJson racers process → process ∈ served) ∧
      (raceEnd halfWritten).files.content .db =
        dbAfter sampleMiniz oneClipJson (served.map racers) (noFiles.content .db) ++ part ∧
      (part ≠ [] → ∃ next later, rest = next :: later ∧
        part <+: rowLines sampleMiniz ((racers next).rows oneClipJson)) :=
  killed_leaves_prefix sampleMiniz oneClipJson racers noFiles halfWritten (raceEnd halfWritten)
    (by decide +kernel) (Runs.run_eq_getD (by decide +kernel) _)

example : (raceEnd halfWritten).files.content .db = ascii "k\tZ" := by decide +kernel

end StreamPipeline.Store
