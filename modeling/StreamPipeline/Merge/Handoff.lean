import StreamPipeline.Merge.Watch

/-!
# Every metadata line is merged

Each place of `stream_merge_main` carries what is known there of the meta file: before it is
open nothing was read, and afterwards the bytes read so far are the lines handed on and the
buffer. The writer's steps keep it. Only the wait loop can return with lines unread, when it
reads the sentinel's event and the meta file is there by then.
-/

namespace StreamPipeline.Merge

/-- Nothing was read yet. -/
structure Fresh (position : Nat) (metaBuf : Bytes) (handed : List Bytes) : Prop where
  position : position = 0
  metaBuf : metaBuf = []
  handed : handed = []

/-- The bytes read so far are some lines and the buffer, and the nonempty lines were handed on in
order. -/
structure Progress (directory : Directory) (position : Nat) (metaBuf : Bytes)
    (handed : List Bytes) : Prop where
  within : position ≤ directory.content.length
  lines : ∃ text, directory.content.take position = joinLines text ++ metaBuf ∧
    (∀ line ∈ text, lf ∉ line) ∧ handed = text.filter fun line => line ≠ []

/-- Nothing was read yet. -/
def Merger.Fresh (merger : Merger) : Prop :=
  Merge.Fresh merger.position merger.metaBuf merger.handed

/-- The lines read so far were handed on. -/
def Merger.Progress (directory : Directory) (merger : Merger) : Prop :=
  Merge.Progress directory merger.position merger.metaBuf merger.handed

/-- Every nonempty line of the meta file was handed on, in order. -/
def Merger.Merged (directory : Directory) (merger : Merger) : Prop :=
  merger.handed = directory.fileLines.filter fun line => line ≠ []

/-- The merger has seen the sentinel when its next drain is the last. -/
def Resume.Knows (directory : Directory) : Resume → Prop
  | .loop saw => saw = true → directory.sentinel = true
  | .events _ => True
  | .final => directory.sentinel = true

/-- What holds where the merger stands. -/
def Merger.Holds (directory : Directory) (merger : Merger) : Prop :=
  match merger.pc with
  | .start | .watchingDir | .checking | .waiting | .reopening => merger.Fresh
  | .opening saw | .watchingMeta saw =>
    merger.Fresh ∧ (saw = true → directory.sentinel = true)
  | .consuming saw =>
    merger.Fresh ∧ (saw = true → directory.sentinel = true ∧ directory.fileLines = [])
  | .draining resume => merger.Progress directory ∧ resume.Knows directory
  | .splitting resume =>
    merger.Progress directory ∧ resume.Knows directory ∧
      (resume = .final → merger.position = directory.content.length)
  | .polling | .consumingMeta _ => merger.Progress directory
  | .consumingDir saw | .rechecking saw | .checkingIdle saw =>
    merger.Progress directory ∧ (saw = true → directory.sentinel = true)
  | .flushing => directory.sentinel = true ∧ merger.Merged directory
  | .returned 0 => directory.sentinel = true ∧ merger.Merged directory
  | .returned _ => True

/-! ## Steps of the others -/

/-- What the writer may do to the files: the meta file grows until the sentinel is there. -/
structure Directory.Grows (before after : Directory) : Prop where
  sentinel : before.sentinel = true → after.sentinel = true
  content : before.content <+: after.content
  frozen : before.sentinel = true → after.content = before.content

/-- A meta file that stays. -/
theorem Directory.Grows.of_same {before after : Directory} (same : after.content = before.content)
    (sentinel : before.sentinel = true → after.sentinel = true) : before.Grows after where
  sentinel := sentinel
  content := by rw [same]
  frozen _ := same

section Growth

variable {before after : Directory} (grows : before.Grows after) {merger : Merger}

include grows

/-- What was read stays. -/
theorem Progress.mono {position : Nat} {metaBuf : Bytes} {handed : List Bytes}
    (progress : Progress before position metaBuf handed) :
    Progress after position metaBuf handed := by
  obtain ⟨more, grown⟩ := grows.content
  obtain ⟨within, text, split, rest⟩ := progress
  refine ⟨within.trans grows.content.length_le, text, ?_, rest⟩
  rw [← grown, List.take_append_of_le_length within, split]

/-- Once the sentinel is there the lines stay. -/
theorem Directory.Grows.fileLines (complete : before.sentinel = true) :
    after.fileLines = before.fileLines := by
  rw [Directory.fileLines, grows.frozen complete]
  rfl

/-- What a drain knows stays. -/
theorem Resume.Knows.mono {resume : Resume} (knows : resume.Knows before) :
    resume.Knows after := by
  cases resume with
  | loop saw => exact fun seen => grows.sentinel (knows seen)
  | events => trivial
  | final => exact grows.sentinel knows

/-- A merged session stays merged. -/
theorem Merger.Merged.mono (complete : before.sentinel = true) (merged : merger.Merged before) :
    merger.Merged after := by
  rw [Merger.Merged, grows.fileLines complete]
  exact merged

/-- The merger's knowledge stays. -/
theorem Merger.Holds.mono (holds : merger.Holds before) : merger.Holds after := by
  obtain ⟨pc, position, metaBuf, fsm, out, handed⟩ := merger
  cases pc with
  | start | watchingDir | checking | waiting | reopening => exact holds
  | opening saw | watchingMeta saw => exact ⟨holds.1, fun seen => grows.sentinel (holds.2 seen)⟩
  | consuming saw =>
    refine ⟨holds.1, fun seen => ?_⟩
    obtain ⟨complete, nothing⟩ := holds.2 seen
    exact ⟨grows.sentinel complete, (grows.fileLines complete).trans nothing⟩
  | draining resume => exact ⟨Progress.mono grows holds.1, Resume.Knows.mono grows holds.2⟩
  | splitting resume =>
    obtain ⟨progress, knows, whole⟩ := holds
    refine ⟨Progress.mono grows progress, Resume.Knows.mono grows knows, ?_⟩
    intro last
    subst last
    rw [grows.frozen knows]
    exact whole rfl
  | polling | consumingMeta => exact Progress.mono grows holds
  | consumingDir saw | rechecking saw | checkingIdle saw =>
    exact ⟨Progress.mono grows holds.1, fun seen => grows.sentinel (holds.2 seen)⟩
  | flushing => exact ⟨grows.sentinel holds.1, Merger.Merged.mono grows holds.1 holds.2⟩
  | returned status =>
    cases status with
    | succ => trivial
    | zero => exact ⟨grows.sentinel holds.1, Merger.Merged.mono grows holds.1 holds.2⟩

end Growth

/-! ## Steps of the merger -/

/-- What the merger may do to the directory: it takes events off the watches. -/
structure Directory.Reads (before after : Directory) : Prop where
  metaFile : after.metaFile = before.metaFile
  sentinel : after.sentinel = before.sentinel
  dirQueue : ∀ name ∈ after.dirQueue, name ∈ before.dirQueue

/-- A directory that stays. -/
theorem Directory.Reads.refl (directory : Directory) : directory.Reads directory :=
  ⟨rfl, rfl, fun _ => id⟩

/-- Events taken off the directory watch. -/
theorem Directory.reads_drop (directory : Directory) (count : Nat) :
    directory.Reads { directory with dirEvents := some (directory.dirQueue.drop count) } :=
  ⟨rfl, rfl, fun _ => List.mem_of_mem_drop⟩

/-- Reading leaves the files alone. -/
theorem Directory.Reads.grows {before after : Directory} (reads : before.Reads after) :
    before.Grows after := by
  apply Directory.Grows.of_same
  · rw [Directory.content, Directory.content, reads.metaFile]
  · exact reads.sentinel.trans

section Own

variable {cjson : Codec.CJson} {session : Session} {directory after : Directory}
  {merger next : Merger}

/-- The path of the sentinel leads to it. -/
theorem sentinel_of_exists (found : sentinelExists session directory = true) :
    directory.sentinel = true := by
  rw [sentinelExists, Bool.and_eq_true] at found
  exact found.2

/-- Before the first read there is nothing to hand on. -/
theorem Fresh.progress {position : Nat} {metaBuf : Bytes} {handed : List Bytes}
    (fresh : Fresh position metaBuf handed) : Progress directory position metaBuf handed where
  within := by
    rw [fresh.position]
    exact Nat.zero_le _
  lines := ⟨[], by rw [fresh.position, fresh.metaBuf]; rfl, by simp, fresh.handed⟩

/-- When the whole file was read and no line is left in the buffer, every line was handed on. -/
theorem Progress.merged {position : Nat} {metaBuf : Bytes} {handed : List Bytes}
    (progress : Progress directory position metaBuf handed)
    (whole : position = directory.content.length) (parted : lf ∉ metaBuf) :
    handed = directory.fileLines.filter fun line => line ≠ [] := by
  obtain ⟨-, text, split, each, handed⟩ := progress
  rw [whole, List.take_length] at split
  rw [Directory.fileLines, split, cutLines_joinLines each parted]
  exact handed

/-- A line cut off the buffer joins the lines read so far. -/
theorem Progress.cut {position : Nat} {metaBuf line rest : Bytes} {handed : List Bytes}
    (progress : Progress directory position metaBuf handed)
    (found : cutAt lf metaBuf = some (line, rest)) :
    Progress directory position rest (if line = [] then handed else handed ++ [line]) := by
  obtain ⟨buffer, inner⟩ := cutAt_some found
  obtain ⟨within, text, split, each, handed⟩ := progress
  refine ⟨within, text ++ [line], ?_, ?_, ?_⟩
  · rw [split, buffer]
    simp [joinLines]
  · intro other member
    rcases List.mem_append.mp member with old | new
    · exact each other old
    · rwa [List.mem_singleton.mp new]
  · rw [handed, List.filter_append]
    split
    · rename_i empty
      simp [empty]
    · rename_i nonempty
      simp [nonempty]

/-- Bytes read from the file join the buffer. -/
theorem Progress.fill {position : Nat} {metaBuf : Bytes} {handed : List Bytes}
    (progress : Progress directory position metaBuf handed) (size : Nat) :
    Progress directory (position + ((directory.content.drop position).take size).length)
      (metaBuf ++ (directory.content.drop position).take size) handed := by
  obtain ⟨within, text, split, rest⟩ := progress
  refine ⟨?_, text, ?_, rest⟩
  · rw [List.length_take, List.length_drop]
    omega
  · rw [List.take_add, split, List.append_assoc]
    congr 2
    rw [List.length_take, List.take_eq_take_min, List.length_drop]
    simp

/-- A merger without a meta file has merged all of it. -/
theorem Merger.Fresh.merged (fresh : merger.Fresh) (missing : directory.metaFile = none) :
    merger.Merged directory := by
  rw [Merger.Merged, fresh.handed, Directory.fileLines, Directory.content, missing]
  rfl

/-- The poll loop begins a round or ends. -/
theorem loopHead_holds (progress : merger.Progress directory) {saw : Bool}
    (knows : saw = true → directory.sentinel = true) :
    ({ merger with pc := loopHead saw } : Merger).Holds directory := by
  cases saw with
  | false => exact progress
  | true => exact ⟨progress, knows rfl⟩

/-- Splitting a line hands it on, or ends the drain. -/
theorem Merger.splitLine_holds {nowMs : Int64} {resume : Resume}
    (here : merger.pc = .splitting resume) (progress : merger.Progress directory)
    (knows : resume.Knows directory)
    (whole : resume = .final → merger.position = directory.content.length) :
    (merger.splitLine cjson session nowMs resume).Holds directory := by
  obtain ⟨pc, position, metaBuf, fsm, out, handed⟩ := merger
  obtain rfl : pc = .splitting resume := here
  unfold Merger.splitLine
  split
  · rename_i noFeed
    cases resume with
    | loop saw => exact loopHead_holds progress knows
    | events dirReady =>
      cases dirReady with
      | false | true => exact ⟨progress, nofun⟩
    | final => exact ⟨knows, progress.merged (whole rfl) (not_mem_of_cutAt noFeed)⟩
  · rename_i line rest found
    have cut := Progress.cut progress found
    split
    · rename_i empty
      rw [if_pos empty] at cut
      exact ⟨cut, knows, whole⟩
    · rename_i nonempty
      rw [if_neg nonempty] at cut
      split
      · trivial
      · exact ⟨cut, knows, whole⟩

/-- The next call of the merger. -/
theorem Merger.advance_holds {nowMs : Int64} (holds : merger.Holds directory)
    (moved : merger.advance cjson session nowMs directory = some (after, next)) :
    next.Holds directory ∧ directory.Reads after := by
  obtain ⟨pc, position, metaBuf, fsm, out, handed⟩ := merger
  cases pc with
  | start =>
    simp only [Merger.advance] at moved
    split at moved <;> cases moved
    · exact ⟨holds, .refl directory⟩
    · exact ⟨trivial, .refl directory⟩
  | watchingDir =>
    cases moved
    exact ⟨holds, rfl, rfl, by simp [Directory.dirQueue]⟩
  | checking =>
    cases moved
    exact ⟨⟨holds, sentinel_of_exists⟩, .refl directory⟩
  | opening saw =>
    simp only [Merger.advance] at moved
    split at moved
    · cases moved
      exact ⟨holds, .refl directory⟩
    · rename_i missing
      split at moved <;> cases moved
      · rename_i seen
        have merged := Merger.Fresh.merged holds.1 (by simpa using missing)
        exact ⟨⟨holds.2 seen, merged⟩, .refl directory⟩
      · exact ⟨holds.1, .refl directory⟩
  | waiting =>
    simp only [Merger.advance] at moved
    split at moved <;> cases moved
    · exact ⟨holds, .refl directory⟩
    · exact ⟨⟨holds, nofun⟩, .refl directory⟩
  | consuming saw =>
    simp only [Merger.advance] at moved
    split at moved
    · contradiction
    · split at moved <;> cases moved
      · rename_i seen
        obtain ⟨complete, nothing⟩ := holds.2 seen
        refine ⟨⟨complete, ?_⟩, .refl directory⟩
        rw [Merger.Merged, nothing]
        exact holds.1.handed
      · exact ⟨holds.1, .refl directory⟩
  | reopening =>
    simp only [Merger.advance] at moved
    split at moved <;> cases moved
    · exact ⟨⟨holds, nofun⟩, .refl directory⟩
    · exact ⟨holds, .refl directory⟩
  | watchingMeta saw =>
    cases moved
    exact ⟨⟨holds.1.progress, holds.2⟩, rfl, rfl, fun _ => id⟩
  | draining resume =>
    simp only [Merger.advance] at moved
    split at moved
    · contradiction
    · rename_i whole
      cases moved
      refine ⟨⟨holds.1, holds.2, fun _ => ?_⟩, .refl directory⟩
      have reached := List.drop_eq_nil_iff.mp (Decidable.not_not.mp whole)
      exact Nat.le_antisymm holds.1.within reached
  | splitting resume =>
    cases moved
    exact ⟨Merger.splitLine_holds rfl holds.1 holds.2.1 holds.2.2, .refl directory⟩
  | polling =>
    simp only [Merger.advance] at moved
    split at moved
    · cases moved
      exact ⟨holds, .refl directory⟩
    · split at moved <;> cases moved
      · exact ⟨⟨holds, nofun⟩, .refl directory⟩
      · exact ⟨⟨holds, nofun⟩, .refl directory⟩
  | consumingMeta dirReady =>
    simp only [Merger.advance] at moved
    split at moved
    · contradiction
    · cases moved
      exact ⟨⟨holds, trivial⟩, .refl directory⟩
  | consumingDir saw =>
    simp only [Merger.advance] at moved
    split at moved
    · contradiction
    · cases moved
      exact ⟨holds, .refl directory⟩
  | rechecking saw =>
    cases moved
    refine ⟨⟨holds.1, fun seen => ?_⟩, .refl directory⟩
    rcases Bool.or_eq_true_iff.mp seen with found | before
    · exact sentinel_of_exists found
    · exact holds.2 before
  | checkingIdle saw =>
    cases moved
    refine ⟨?_, .refl directory⟩
    unfold Merger.printed
    split
    · trivial
    · exact loopHead_holds holds.1 holds.2
  | flushing =>
    cases moved
    refine ⟨?_, .refl directory⟩
    unfold Merger.printed
    split
    · trivial
    · exact holds
  | returned => contradiction

/-- An event that names the sentinel tells that it is there. -/
theorem sentinel_of_any {names : List CStr}
    (told : ∀ name ∈ names, lpIsCompletedSession name = true → directory.sentinel = true)
    (some : names.any namesSentinel = true) : directory.sentinel = true := by
  obtain ⟨name, member, named⟩ := List.any_eq_true.mp some
  rw [namesSentinel, Bool.and_eq_true] at named
  exact told name member named.2

/-- A read of the merger. -/
theorem Merger.take_holds {count : Nat} (holds : merger.Holds directory)
    (told : ∀ name ∈ directory.dirQueue,
      lpIsCompletedSession name = true → directory.sentinel = true)
    (attentive : ∀ saw, merger.pc = .consuming saw →
      (directory.dirQueue.take count).any namesSentinel = true → directory.fileLines = [])
    (moved : merger.take count directory = some (after, next)) :
    next.Holds directory ∧ directory.Reads after := by
  have front : ∀ name ∈ directory.dirQueue.take count,
      lpIsCompletedSession name = true → directory.sentinel = true :=
    fun name member => told name (List.mem_of_mem_take member)
  obtain ⟨pc, position, metaBuf, fsm, out, handed⟩ := merger
  cases pc with
  | start | watchingDir | checking | opening | waiting | reopening | watchingMeta | splitting
  | polling | rechecking | checkingIdle | flushing | returned => contradiction
  | consuming saw =>
    simp only [Merger.take] at moved
    split at moved
    · contradiction
    · cases moved
      refine ⟨⟨holds.1, fun seen => ?_⟩, directory.reads_drop count⟩
      rcases Bool.or_eq_true_iff.mp seen with now | before
      · exact ⟨sentinel_of_any front now, attentive saw rfl now⟩
      · exact holds.2 before
  | consumingDir saw =>
    simp only [Merger.take] at moved
    split at moved
    · contradiction
    · cases moved
      refine ⟨⟨holds.1, fun seen => ?_⟩, directory.reads_drop count⟩
      rcases Bool.or_eq_true_iff.mp seen with now | before
      · exact sentinel_of_any front now
      · exact holds.2 before
  | consumingMeta dirReady =>
    simp only [Merger.take] at moved
    split at moved
    · contradiction
    · cases moved
      exact ⟨holds, rfl, rfl, fun _ => id⟩
  | draining resume =>
    simp only [Merger.take] at moved
    split at moved
    · contradiction
    · cases moved
      exact ⟨⟨holds.1.fill _, holds.2⟩, .refl directory⟩

end Own

/-! ## Runs of the system -/

/-- What the writer keeps. -/
structure World.Sound (world : World) : Prop where
  /-- Only the sentinel gives events of its name. -/
  told : ∀ name ∈ world.directory.dirQueue,
    lpIsCompletedSession name = true → world.directory.sentinel = true
  /-- The writer creates the sentinel when it is done with the meta file. -/
  closed : world.directory.sentinel = true ↔ world.writer = .touching ∨ world.writer = .finished

/-- What holds in an attentive run. -/
structure World.Inv (world : World) : Prop where
  sound : world.Sound
  /-- The merger knows what it must. -/
  holds : world.merger.Holds world.directory

/-- The wait loop has read the sentinel's event, or returned after that, with lines unread. -/
structure World.Missed (world : World) : Prop where
  sound : world.Sound
  complete : world.directory.sentinel = true
  lines : world.directory.fileLines ≠ []
  handed : world.merger.handed = []
  gone : world.merger.pc = .consuming true ∨ ∃ status, world.merger.pc = .returned status

/-- The invariant holds before either process starts. -/
theorem World.inv_initial : World.initial.Inv where
  sound := ⟨by simp [World.initial, Directory.dirQueue], by simp [World.initial]⟩
  holds := ⟨rfl, rfl, rfl⟩

/-- An event joins the queue of the directory watch. -/
theorem Directory.mem_report {directory : Directory} {name event : CStr}
    (member : event ∈ (directory.report name).dirQueue) :
    event ∈ directory.dirQueue ∨ event = name := by
  rw [Directory.dirQueue, Directory.report] at member
  rw [Directory.dirQueue]
  cases found : directory.dirEvents with
  | none => simp [found] at member
  | some queue => simpa [found] using member

/-- An event changes no file. -/
theorem Directory.grows_report (directory : Directory) (name : CStr) :
    directory.Grows (directory.report name) := .of_same rfl id

/-- The meta file does not look like the sentinel. -/
theorem Session.metaName_other (session : Session) :
    lpIsCompletedSession session.metaName = false := by
  have suffix : ∀ byte ∈ (ascii ".meta.jsonl").reverse, decide (byte ≠ 47) = true :=
    List.all_eq_true.mp (by decide)
  have path : session.metaName.bytes = session.session.bytes ++ ascii ".meta.jsonl" := by
    rw [Session.metaName, CStr.bytes_append, CStr.bytes_ofBytes (by decide)]
  rw [lpIsCompletedSession, decide_eq_false_iff_not, path, baseName, List.reverse_append,
    List.takeWhile_append_of_pos suffix, List.reverse_append, List.reverse_reverse]
  intro same
  have ends := congrArg List.getLast? same
  have last : (ascii ".meta.jsonl").getLast? = some 108 := by decide
  have other : pipelineSentinelName.bytes.getLast? = some 100 := by decide
  rw [List.getLast?_append, last, other, Option.some_or] at ends
  exact absurd (Option.some.inj ends) (by decide)

section Steps

variable {cjson : Codec.CJson} {session : Session} {world : World}

/-- A step of the writer. -/
theorem World.Sound.writer (sound : world.Sound) {act : WriterAct} {after : Directory}
    {next : Writer}
    (moved : act.perform session world.directory world.writer = some (after, next)) :
    (World.mk after next world.merger).Sound ∧ world.directory.Grows after := by
  obtain ⟨directory, writer, merger⟩ := world
  obtain ⟨told, closed⟩ := sound
  cases act with
  | makeBin =>
    cases writer with
    | idle | writing | touching | finished =>
      cases moved
      exact ⟨⟨told, closed⟩, .of_same rfl id⟩
  | openMeta =>
    cases writer with
    | writing | touching | finished => contradiction
    | idle =>
      cases moved
      exact ⟨⟨told, by simpa using closed⟩, .of_same rfl id⟩
  | beginLine line =>
    cases writer with
    | idle | touching | finished => contradiction
    | writing left =>
      cases left with
      | cons => contradiction
      | nil =>
        simp only [WriterAct.perform] at moved
        split at moved
        · contradiction
        · cases moved
          exact ⟨⟨told, by simpa using closed⟩, .of_same rfl id⟩
  | write count =>
    cases writer with
    | idle | touching | finished => contradiction
    | writing left =>
      have working : directory.sentinel = false := by simpa using closed
      simp only [WriterAct.perform] at moved
      split at moved
      · contradiction
      · cases moved
        refine ⟨⟨told, ?_⟩, id, List.prefix_append _ _, ?_⟩
        · simpa [Directory.reportMeta] using working
        · intro complete
          rw [working] at complete
          contradiction
  | closeMeta =>
    cases writer with
    | idle | touching | finished => contradiction
    | writing left =>
      cases left with
      | cons => contradiction
      | nil =>
        cases moved
        rw [Directory.closeMeta]
        split
        · exact ⟨⟨told, by simpa [Directory.reportMeta] using closed⟩, .of_same rfl id⟩
        · refine ⟨⟨?_, by simpa [Directory.report, Directory.reportMeta] using closed⟩,
            .of_same rfl id⟩
          intro name member named
          rcases Directory.mem_report member with old | rfl
          · exact told name old named
          · rw [session.metaName_other] at named
            contradiction
  | makeSentinel =>
    cases writer with
    | writing | touching | finished => contradiction
    | idle =>
      cases moved
      exact ⟨⟨fun _ _ _ => rfl, by simp⟩, .of_same rfl fun _ => rfl⟩
  | closeSentinel =>
    cases writer with
    | idle | writing | finished => contradiction
    | touching =>
      cases moved
      have complete : directory.sentinel = true := closed.mpr (.inl rfl)
      refine ⟨⟨fun _ _ _ => complete, ?_⟩, directory.grows_report _⟩
      exact iff_of_true complete (.inr rfl)

/-- Another file in the directory. -/
theorem World.Sound.other (sound : world.Sound) {name : CStr}
    (other : ¬lpIsCompletedSession name = true) :
    (World.mk (world.directory.report name) world.writer world.merger).Sound := by
  refine ⟨?_, sound.closed⟩
  intro event member named
  rcases Directory.mem_report member with old | rfl
  · exact sound.told event old named
  · exact absurd named other

/-- A step of the merger. -/
theorem World.Sound.reads (sound : world.Sound) {after : Directory}
    (reads : world.directory.Reads after) (merger : Merger) :
    (World.mk after world.writer merger).Sound := by
  constructor
  · intro name member named
    exact reads.sentinel.trans (sound.told name (reads.dirQueue name member) named)
  · rw [reads.sentinel]
    exact sound.closed

/-- A step keeps the invariant, when a read of the wait loop is attentive. -/
theorem World.Inv.step (inv : world.Inv) {event : Event} (attentive : world.Attentive event)
    {next : World} (stepped : world.step cjson session event = some next) : next.Inv := by
  cases event with
  | writer act =>
    obtain ⟨⟨after, writer⟩, moved, rfl⟩ := Option.map_eq_some_iff.mp stepped
    obtain ⟨sound, grows⟩ := inv.sound.writer moved
    exact ⟨sound, inv.holds.mono grows⟩
  | other name =>
    rw [World.step] at stepped
    split at stepped
    · contradiction
    · rename_i other
      rw [← Option.some.inj stepped]
      exact ⟨inv.sound.other other, inv.holds.mono (world.directory.grows_report name)⟩
  | merger act =>
    obtain ⟨⟨after, merger⟩, moved, rfl⟩ := Option.map_eq_some_iff.mp stepped
    have kept : merger.Holds world.directory ∧ world.directory.Reads after := by
      cases act with
      | advance nowMs => exact Merger.advance_holds inv.holds moved
      | take count =>
        apply Merger.take_holds inv.holds inv.sound.told _ moved
        intro saw here
        unfold World.Attentive at attentive
        rwa [here] at attentive
      | expire =>
        rw [MergerAct.perform] at moved
        split at moved
        · cases moved
          exact ⟨trivial, .refl world.directory⟩
        · contradiction
    obtain ⟨holds, reads⟩ := kept
    exact ⟨inv.sound.reads reads merger, holds.mono reads.grows⟩

/-- A step against the condition misses the lines. -/
theorem World.Inv.missed (inv : world.Inv) {event : Event} (careless : ¬world.Attentive event)
    {next : World} (stepped : world.step cjson session event = some next) : next.Missed := by
  unfold World.Attentive at careless
  split at careless
  · rename_i count saw here
    rw [Classical.not_imp] at careless
    obtain ⟨named, lines⟩ := careless
    obtain ⟨⟨after, merger⟩, moved, rfl⟩ := Option.map_eq_some_iff.mp stepped
    have front : ∀ name ∈ world.directory.dirQueue.take count,
        lpIsCompletedSession name = true → world.directory.sentinel = true :=
      fun name member => inv.sound.told name (List.mem_of_mem_take member)
    have holds := inv.holds
    rw [Merger.Holds, here] at holds
    rw [MergerAct.perform, Merger.take, here] at moved
    dsimp only at moved
    split at moved
    · contradiction
    · cases moved
      exact {
        sound := inv.sound.reads (world.directory.reads_drop count) _
        complete := sentinel_of_any front named
        lines := lines
        handed := holds.1.handed
        gone := .inl (by rw [named]; rfl) }
  · exact absurd trivial careless

/-- Missed lines stay missed. -/
theorem World.Missed.step (missed : world.Missed) {event : Event}
    {next : World} (stepped : world.step cjson session event = some next) : next.Missed := by
  obtain ⟨sound, complete, lines, handed, gone⟩ := missed
  cases event with
  | writer act =>
    obtain ⟨⟨after, writer⟩, moved, rfl⟩ := Option.map_eq_some_iff.mp stepped
    obtain ⟨still, grows⟩ := sound.writer moved
    exact ⟨still, grows.sentinel complete, by rwa [grows.fileLines complete], handed, gone⟩
  | other name =>
    rw [World.step] at stepped
    split at stepped
    · contradiction
    · rename_i other
      rw [← Option.some.inj stepped]
      exact ⟨sound.other other, complete, lines, handed, gone⟩
  | merger act =>
    obtain ⟨⟨after, merger⟩, moved, rfl⟩ := Option.map_eq_some_iff.mp stepped
    obtain ⟨directory, writer, ⟨pc, position, metaBuf, fsm, out, given⟩⟩ := world
    rcases gone with here | ⟨status, here⟩
    · obtain rfl : pc = .consuming true := here
      cases act with
      | advance nowMs =>
        simp only [MergerAct.perform, Merger.advance] at moved
        split at moved
        · contradiction
        · cases moved
          exact ⟨sound.reads (.refl _) _, complete, lines, handed, .inr ⟨0, rfl⟩⟩
      | take count =>
        simp only [MergerAct.perform, Merger.take] at moved
        split at moved
        · contradiction
        · cases moved
          exact ⟨sound.reads (directory.reads_drop count) _, complete, lines, handed,
            .inl (by rw [Bool.or_true])⟩
      | expire => contradiction
    · obtain rfl : pc = .returned status := here
      cases act with
      | advance | take | expire => contradiction

end Steps

/-- When `stream_merge` has returned 0, the lines of the meta file were handed to the parser, each
once and in order, if and only if none of them is empty and no read of the wait loop returned the
sentinel's event while the meta file had a line. -/
theorem handed_iff_attentive (cjson : Codec.CJson) (session : Session) (events : List Event)
    (last : World)
    (ran : Runs.run (World.step cjson session) World.initial events = some last)
    (returned : last.merger.pc = .returned 0) :
    last.merger.handed = last.directory.fileLines ↔
      (∀ line ∈ last.directory.fileLines, line ≠ []) ∧
        Runs.Along (World.step cjson session) World.Attentive World.initial events := by
  have merged (inv : last.Inv) : last.merger.Merged last.directory := by
    have holds := inv.holds
    rw [Merger.Holds, returned] at holds
    exact holds.2
  constructor
  · intro all
    rcases Runs.along_or (fun _ _ _ inv attentive stepped => inv.step attentive stepped)
      (fun _ _ _ inv careless stepped => inv.missed careless stepped)
      (fun _ _ _ missed stepped => missed.step stepped) World.inv_initial ran with
      ⟨along, inv⟩ | missed
    · refine ⟨?_, along⟩
      have filtered := merged inv
      rw [Merger.Merged, all] at filtered
      intro line member
      rw [filtered] at member
      simpa using (List.mem_filter.mp member).2
    · exact absurd (all.symm.trans missed.handed) missed.lines
  · rintro ⟨nonempty, along⟩
    have inv := Runs.invariant (fun _ _ _ inv attentive stepped => inv.step attentive stepped)
      World.inv_initial along ran
    rw [merged inv]
    exact List.filter_eq_self.mpr fun line member => by simpa using nonempty line member

/-- A metadata line. -/
def metadataLine : Bytes :=
  ascii "\x7b\"kind\":\"data\",\"sequence\":1,\"offset\":0,\"length\":8,\"ts_ms\":1000\x7d"

/-- A session in the directory `d`. -/
def shortSession : Session :=
  ⟨.ofBytes (ascii "s"), .ofBytes (ascii "d"), 5000, 2000⟩

/-- The next calls of the merger, at time 1. -/
def advances (count : Nat) : List Event := List.replicate count (.merger (.advance 1))

/-- Steps of the writer. -/
def writes (acts : List WriterAct) : List Event := acts.map Event.writer

/-- The end of a run. -/
def runEnd (events : List Event) : World :=
  (Runs.run (World.step Codec.sampleJson shortSession) World.initial events).getD World.initial

/-- The merger reads the first half of the line before the session is complete. -/
def halfLine : List Event :=
  writes [.makeBin, .openMeta, .beginLine metadataLine, .write 40] ++ advances 5 ++
    [.merger (.take 4096)] ++ advances 2 ++
    writes [.write 4096, .closeMeta, .makeSentinel, .closeSentinel] ++ advances 1 ++
    [.merger (.take 10)] ++ advances 1 ++ [.merger (.take 4096)] ++ advances 3 ++
    [.merger (.take 10)] ++ advances 6

/-- A line read in two halves is handed on. -/
theorem handed_iff_attentive_halfLine :
    (runEnd halfLine).merger.handed = (runEnd halfLine).directory.fileLines ↔
      (∀ line ∈ (runEnd halfLine).directory.fileLines, line ≠ []) ∧
        Runs.Along (World.step Codec.sampleJson shortSession) World.Attentive World.initial
          halfLine :=
  handed_iff_attentive Codec.sampleJson shortSession halfLine (runEnd halfLine)
    (Runs.run_eq_getD (by decide +kernel) _) (by decide +kernel)

/-- The writer makes the meta file and the sentinel while the merger waits. -/
def wholeSession : List Event :=
  writes [.makeBin] ++ advances 4 ++
    writes [.openMeta, .beginLine metadataLine, .write 4096, .closeMeta, .makeSentinel,
      .closeSentinel] ++
    advances 1 ++ [.merger (.take 2)] ++ advances 1

/-- The merger returns 0 without having opened the meta file, and its line is missed. -/
theorem waiting_merger_misses_line :
    Runs.run (World.step Codec.sampleJson shortSession) World.initial wholeSession =
        some (runEnd wholeSession) ∧
      (runEnd wholeSession).merger.pc = .returned 0 ∧
      (runEnd wholeSession).directory.fileLines = [metadataLine] ∧
      (runEnd wholeSession).merger.handed = [] :=
  ⟨Runs.run_eq_getD (by decide +kernel) _, by decide +kernel, by decide +kernel,
    by decide +kernel⟩

end StreamPipeline.Merge
