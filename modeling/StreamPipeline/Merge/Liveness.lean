import StreamPipeline.Merge.Handoff

/-!
# `stream_merge` returns

Once the session is complete, the merger never blocks for good and returns after a number of its
own calls that is known from where it stands: the poll loop finds the sentinel the next time it
looks, and the wait loop has its event in the queue. Other files in the directory only add their
events.
-/

namespace StreamPipeline.Merge

open Codec

/-! ## The event of the sentinel -/

/-- The wait loop, or on the way there without having seen the sentinel. -/
def MergerPc.Waits : MergerPc → Prop
  | .opening false | .waiting | .consuming false | .reopening => True
  | _ => False

/-- The directory is watched and the sentinel is not seen yet. -/
def MergerPc.Watches (pc : MergerPc) : Prop := pc = .checking ∨ pc.Waits

/-- The wait loop is told of the sentinel. -/
structure World.Told (world : World) : Prop where
  /-- The sentinel is there when the session is complete. -/
  there : world.writer = .touching ∨ world.writer = .finished → world.directory.sentinel = true
  /-- The directory is watched. -/
  watched : world.merger.pc.Watches → world.directory.dirEvents.isSome = true
  /-- The event of the sentinel is still to be read. -/
  queued : world.merger.pc.Waits → world.writer = .finished →
    pipelineSentinelName ∈ world.directory.dirQueue

/-- Nobody waits at the start. -/
theorem World.told_initial : World.initial.Told where
  there := by simp [World.initial]
  watched watches := watches.elim (fun same => by contradiction) fun waits => absurd waits id
  queued waits := absurd waits id

/-- Reporting keeps the queue. -/
theorem Directory.mem_dirQueue_report {directory : Directory} {name event : CStr}
    (member : event ∈ directory.dirQueue) : event ∈ (directory.report name).dirQueue := by
  rw [Directory.dirQueue] at member
  rw [Directory.dirQueue, Directory.report]
  cases found : directory.dirEvents with
  | none => simp [found] at member
  | some queue =>
    rw [found] at member
    exact List.mem_append_left _ member

/-- A reported name is in the queue of a watched directory. -/
theorem Directory.reported {directory : Directory} (watched : directory.dirEvents.isSome = true)
    (name : CStr) : name ∈ (directory.report name).dirQueue := by
  rw [Directory.dirQueue, Directory.report]
  obtain ⟨queue, found⟩ := Option.isSome_iff_exists.mp watched
  simp [found]

/-- Reporting does not end the watch. -/
theorem Directory.watched_report (directory : Directory) (name : CStr) :
    (directory.report name).dirEvents.isSome = directory.dirEvents.isSome :=
  Option.isSome_map

section Told

variable {cjson : CJson} {session : Session} {world next : World}

/-- A step of the writer keeps the wait loop told. -/
theorem World.Told.writer (told : world.Told) {act : WriterAct}
    (stepped : world.step cjson session (.writer act) = some next) : next.Told := by
  obtain ⟨directory, writer, merger⟩ := world
  obtain ⟨there, watched, queued⟩ := told
  obtain ⟨⟨after, following⟩, moved, same⟩ := Option.map_eq_some_iff.mp stepped
  rw [← same]
  cases act with
  | makeBin =>
    cases writer with
    | idle | writing | touching | finished =>
      cases moved
      exact ⟨there, watched, queued⟩
  | openMeta =>
    cases writer with
    | writing | touching | finished => contradiction
    | idle =>
      cases moved
      exact ⟨by simp, watched, by simp⟩
  | beginLine line =>
    cases writer with
    | idle | touching | finished => contradiction
    | writing left =>
      cases left with
      | cons => contradiction
      | nil =>
        simp only [WriterAct.perform] at moved
        split at moved
        · contradiction
        · cases moved
          exact ⟨by simp, watched, by simp⟩
  | write count =>
    cases writer with
    | idle | touching | finished => contradiction
    | writing left =>
      simp only [WriterAct.perform] at moved
      split at moved
      · contradiction
      · cases moved
        exact ⟨by simp, watched, by simp⟩
  | closeMeta =>
    cases writer with
    | idle | touching | finished => contradiction
    | writing left =>
      cases left with
      | cons => contradiction
      | nil =>
        cases moved
        refine ⟨by simp, fun waits => ?_, by simp⟩
        rw [Directory.closeMeta]
        split
        · exact watched waits
        · rw [Directory.watched_report]
          exact watched waits
  | makeSentinel =>
    cases writer with
    | writing | touching | finished => contradiction
    | idle =>
      cases moved
      exact ⟨fun _ => rfl, watched, by simp⟩
  | closeSentinel =>
    cases writer with
    | idle | writing | finished => contradiction
    | touching =>
      cases moved
      refine ⟨fun _ => there (.inl rfl), fun waits => ?_, fun waits _ => ?_⟩
      · rw [Directory.watched_report]
        exact watched waits
      · exact Directory.reported (watched (.inr waits)) _

/-- Another file keeps the wait loop told. -/
theorem World.Told.other (told : world.Told) {name : CStr}
    (stepped : world.step cjson session (.other name) = some next) : next.Told := by
  rw [World.step] at stepped
  split at stepped
  · contradiction
  · rw [← Option.some.inj stepped]
    refine ⟨told.there, fun waits => ?_, fun waits done => ?_⟩
    · rw [Directory.watched_report]
      exact told.watched waits
    · exact Directory.mem_dirQueue_report (told.queued waits done)

/-- Where nobody waits nothing has to be told. -/
theorem World.Told.past (told : world.Told) {directory : Directory} {merger : Merger}
    (same : directory.sentinel = world.directory.sentinel) (past : ¬merger.pc.Watches) :
    (World.mk directory world.writer merger).Told where
  there done := same.trans (told.there done)
  watched watches := absurd watches past
  queued waits := absurd (.inr waits) past

/-- The wait loop goes on with the queue as it is. -/
theorem World.Told.waits (told : world.Told) (waits : world.merger.pc.Waits) (merger : Merger) :
    (World.mk world.directory world.writer merger).Told where
  there := told.there
  watched _ := told.watched (.inr waits)
  queued _ := told.queued waits

/-- A drain is no wait. -/
theorem Resume.not_watches (resume : Resume) : ¬resume.next.Watches := by
  rintro (same | waits)
  · cases resume with
    | loop saw => cases saw <;> contradiction
    | events dirReady => cases dirReady <;> contradiction
    | final => contradiction
  · cases resume with
    | loop saw => cases saw <;> exact waits
    | events dirReady => cases dirReady <;> exact waits
    | final => exact waits

/-- A clip that is printed or not is no wait. -/
theorem Merger.not_watches_printed {merger : Merger} {pc : MergerPc} (past : ¬pc.Watches)
    (clip : Option (Fsm × Bytes)) : ¬(merger.printed pc clip).pc.Watches := by
  cases clip with
  | none => rintro (same | waits) <;> contradiction
  | some pair => exact past

/-- A split line is no wait. -/
theorem Merger.not_watches_splitLine (cjson : CJson) (session : Session) (nowMs : Int64)
    {merger : Merger} {resume : Resume} (here : merger.pc = .splitting resume) :
    ¬(merger.splitLine cjson session nowMs resume).pc.Watches := by
  have still : ¬merger.pc.Watches := by
    rw [here]
    rintro (same | waits) <;> contradiction
  rw [Merger.splitLine]
  split
  · exact resume.not_watches
  · split
    · exact still
    · split
      · rintro (same | waits) <;> contradiction
      · exact still

end Told

/-! ## The calls that remain -/

/-- How far the merger is from its return, in calls between two reads, with the meta file there or
not. -/
def MergerPc.rank (opened : Bool) : MergerPc → Nat
  | .returned _ => 0
  | .flushing => 1
  | .splitting .final => 2
  | .draining .final => 3
  | .checkingIdle true => 4
  | .splitting (.loop true) => 4
  | .rechecking _ => 5
  | .draining (.loop true) => 5
  | .watchingMeta true => 6
  | .consumingDir _ => 6
  | .splitting (.events _) => 7
  | .draining (.events _) => 8
  | .consumingMeta _ => 9
  | .polling => 10
  | .checkingIdle false => 11
  | .splitting (.loop false) => 11
  | .draining (.loop false) => 12
  | .watchingMeta false => 13
  | .consuming true => 1
  -- With the meta file there the wait loop ends behind its `open`, else behind its events.
  | .consuming false => if opened then 15 else 14
  | .reopening => if opened then 14 else 16
  | .waiting => if opened then 16 else 15
  | .opening _ => 17
  | .checking => 18
  | .watchingDir => 19
  | .start => 20

/-- The calls of the merger that remain at most when the session is complete: a byte is read and
handed on, and an event is read. -/
def World.remaining (world : World) : Nat :=
  world.merger.pc.rank world.directory.metaFile.isSome +
    2 * (world.directory.content.length - world.merger.position) +
    world.merger.metaBuf.length + world.directory.dirQueue.length +
    world.directory.metaQueue.length

/-- A line that was cut off leaves a shorter rest. -/
theorem length_cutAt {sep : UInt8} {text front rest : Bytes}
    (cut : cutAt sep text = some (front, rest)) : rest.length < text.length := by
  have whole := (cutAt_some cut).1
  rw [whole, List.length_append, List.length_cons]
  omega

/-- Where a drain returns to is nearer. -/
theorem Resume.rank_next (resume : Resume) (opened : Bool) :
    resume.next.rank opened < (MergerPc.splitting resume).rank opened := by
  cases resume with
  | loop saw => cases opened <;> cases saw <;> decide
  | events dirReady => cases opened <;> cases dirReady <;> decide
  | final => cases opened <;> decide

/-- Handing on a line takes a call that was due. -/
theorem Merger.splitLine_remaining {cjson : CJson} {session : Session} {nowMs : Int64}
    {resume : Resume} {directory : Directory} {writer : Writer} {merger : Merger}
    (here : merger.pc = .splitting resume) :
    (World.mk directory writer (merger.splitLine cjson session nowMs resume)).remaining <
      (World.mk directory writer merger).remaining := by
  have nearer := resume.rank_next directory.metaFile.isSome
  have far : 0 < (MergerPc.splitting resume).rank directory.metaFile.isSome :=
    Nat.zero_lt_of_lt nearer
  rw [Merger.splitLine]
  split
  · simp only [World.remaining, here]
    omega
  · rename_i line rest cut
    have shorter := length_cutAt cut
    split
    · simp only [World.remaining]
      omega
    · split
      · have ended : (MergerPc.returned 1).rank directory.metaFile.isSome = 0 := rfl
        simp only [World.remaining, here, ended]
        omega
      · simp only [World.remaining]
        omega

section Own

variable {cjson : CJson} {session : Session} {world : World}

/-- The next call of the merger keeps the wait loop told, and is one of those that remained when the
session is complete. -/
theorem World.Told.advance (told : world.Told)
    (fits : (buildArtifactPath session.src pipelineSentinelName).isSome = true)
    {nowMs : Int64} {after : Directory} {next : Merger}
    (moved : world.merger.advance cjson session nowMs world.directory = some (after, next)) :
    (World.mk after world.writer next).Told ∧
      (world.writer = .finished →
        (World.mk after world.writer next).remaining < world.remaining) := by
  have gone {pc : MergerPc} (different : pc ≠ .checking) (past : ¬pc.Waits) : ¬pc.Watches :=
    fun watches => watches.elim different past
  obtain ⟨directory, writer, merger⟩ := world
  obtain ⟨pc, position, metaBuf, fsm, out, handed⟩ := merger
  cases pc with
  | start =>
    simp only [Merger.advance] at moved
    split at moved <;> cases moved
    · refine ⟨told.past rfl (gone (by simp) id), fun _ => ?_⟩
      simp [World.remaining, MergerPc.rank]
    · refine ⟨told.past rfl (gone (by simp) id), fun _ => ?_⟩
      simp [World.remaining, MergerPc.rank]
  | watchingDir =>
    cases moved
    refine ⟨⟨told.there, fun _ => rfl, fun waits => absurd waits id⟩, fun _ => ?_⟩
    simp only [World.remaining, MergerPc.rank, Directory.dirQueue, Directory.content,
      Directory.metaQueue, Option.getD_some, List.length_nil]
    omega
  | checking =>
    cases moved
    constructor
    · refine ⟨told.there, fun _ => told.watched (.inl rfl), ?_⟩
      intro waits done
      have there : directory.sentinel = true := told.there (.inr done)
      have seen : sentinelExists session directory = true := by
        rw [sentinelExists, fits, there]
        rfl
      rw [seen] at waits
      exact absurd waits id
    · intro _
      simp [World.remaining, MergerPc.rank]
  | opening saw =>
    simp only [Merger.advance] at moved
    split at moved
    · rename_i opened
      cases moved
      refine ⟨told.past rfl (gone (by simp) id), fun _ => ?_⟩
      cases saw <;> simp [World.remaining, MergerPc.rank]
    · split at moved <;> cases moved
      · refine ⟨told.past rfl (gone (by simp) id), fun _ => ?_⟩
        simp [World.remaining, MergerPc.rank]
      · rename_i unseen missing
        have unseen : saw = false := by simpa using unseen
        subst unseen
        refine ⟨told.waits trivial _, fun _ => ?_⟩
        simp [World.remaining, MergerPc.rank, missing]
  | waiting =>
    simp only [Merger.advance] at moved
    split at moved
    · rename_i empty
      cases moved
      refine ⟨told.waits trivial _, fun done => ?_⟩
      have queued := told.queued trivial done
      rw [empty] at queued
      contradiction
    · cases moved
      refine ⟨told.waits trivial _, fun _ => ?_⟩
      cases opened : after.metaFile.isSome <;> simp [World.remaining, MergerPc.rank, opened]
  | consuming saw =>
    simp only [Merger.advance] at moved
    split at moved
    · contradiction
    · rename_i empty
      split at moved <;> cases moved
      · rename_i seen
        subst seen
        refine ⟨told.past rfl (gone (by simp) id), fun _ => ?_⟩
        simp [World.remaining, MergerPc.rank]
      · rename_i unseen
        have unseen : saw = false := by simpa using unseen
        subst unseen
        refine ⟨told.waits trivial _, fun done => ?_⟩
        have queued := told.queued trivial done
        rw [Decidable.not_not.mp empty] at queued
        contradiction
  | reopening =>
    simp only [Merger.advance] at moved
    split at moved <;> cases moved
    · rename_i opened
      refine ⟨told.past rfl (gone (by simp) id), fun _ => ?_⟩
      simp [World.remaining, MergerPc.rank, opened]
    · rename_i missing
      refine ⟨told.waits trivial _, fun _ => ?_⟩
      simp [World.remaining, MergerPc.rank, missing]
  | watchingMeta saw =>
    cases moved
    refine ⟨told.past rfl (gone (by simp) id), fun _ => ?_⟩
    cases saw <;>
      simp only [World.remaining, MergerPc.rank, Directory.dirQueue, Directory.content,
        Directory.metaQueue, Option.getD_some, List.length_nil] <;> omega
  | draining resume =>
    simp only [Merger.advance] at moved
    split at moved
    · contradiction
    · cases moved
      refine ⟨told.past rfl (gone (by simp) id), fun _ => ?_⟩
      rcases resume with (_ | _) | _ | _ <;> simp [World.remaining, MergerPc.rank]
  | splitting resume =>
    cases moved
    exact ⟨told.past rfl (Merger.not_watches_splitLine cjson session nowMs rfl),
      fun _ => Merger.splitLine_remaining rfl⟩
  | polling =>
    simp only [Merger.advance] at moved
    split at moved
    · cases moved
      refine ⟨told.past rfl (gone (by simp) id), fun _ => ?_⟩
      simp [World.remaining, MergerPc.rank]
    · split at moved <;> cases moved
      · refine ⟨told.past rfl (gone (by simp) id), fun _ => ?_⟩
        simp [World.remaining, MergerPc.rank]
      · refine ⟨told.past rfl (gone (by simp) id), fun _ => ?_⟩
        simp [World.remaining, MergerPc.rank]
  | consumingMeta dirReady | consumingDir saw =>
    simp only [Merger.advance] at moved
    split at moved
    · contradiction
    · cases moved
      refine ⟨told.past rfl (gone (by simp) id), fun _ => ?_⟩
      simp [World.remaining, MergerPc.rank]
  | rechecking saw =>
    cases moved
    refine ⟨told.past rfl (gone (by simp) id), fun done => ?_⟩
    have there : directory.sentinel = true := told.there (.inr done)
    have seen : sentinelExists session directory = true := by
      rw [sentinelExists, fits, there]
      rfl
    rw [seen]
    simp [World.remaining, MergerPc.rank]
  | checkingIdle saw =>
    cases moved
    have past : ¬(loopHead saw).Watches := by
      cases saw <;> exact gone (by decide) id
    refine ⟨told.past rfl (Merger.not_watches_printed past _), fun _ => ?_⟩
    unfold Merger.printed
    split <;> cases saw <;> simp [World.remaining, MergerPc.rank, loopHead]
  | flushing =>
    cases moved
    have past : ¬(MergerPc.returned 0).Watches := gone (by simp) id
    refine ⟨told.past rfl (Merger.not_watches_printed past _), fun _ => ?_⟩
    unfold Merger.printed
    split <;> simp [World.remaining, MergerPc.rank]
  | returned => contradiction

/-- The queue behind a read event. -/
theorem length_drop_of_take {α : Type} {queue : List α} {count : Nat}
    (some : queue.take count ≠ []) : (queue.drop count).length < queue.length := by
  have filled := List.length_pos_iff.mpr some
  rw [List.length_take] at filled
  rw [List.length_drop]
  omega

/-- A seen sentinel ends the wait loop. -/
theorem MergerPc.rank_consuming (found saw opened : Bool) :
    (MergerPc.consuming (found || saw)).rank opened ≤ (MergerPc.consuming saw).rank opened := by
  cases found <;> cases saw <;> cases opened <;> decide

/-- Read events of the directory bring the merger nearer. -/
theorem remaining_of_events {directory : Directory} {writer : Writer} {before after : Merger}
    {rest : List CStr} (read : after.position = before.position)
    (kept : after.metaBuf = before.metaBuf)
    (nearer : after.pc.rank directory.metaFile.isSome ≤ before.pc.rank directory.metaFile.isSome)
    (shorter : rest.length < directory.dirQueue.length) :
    (World.mk { directory with dirEvents := some rest } writer after).remaining <
      (World.mk directory writer before).remaining := by
  have queue : ({ directory with dirEvents := some rest } : Directory).dirQueue = rest := rfl
  have content : ({ directory with dirEvents := some rest } : Directory).content =
      directory.content := rfl
  have others : ({ directory with dirEvents := some rest } : Directory).metaQueue =
      directory.metaQueue := rfl
  simp only [World.remaining, queue, content, others, read, kept]
  omega

/-- A read of the merger keeps the wait loop told, and is one of the calls that remained. -/
theorem World.Told.take (told : world.Told) {count : Nat} {after : Directory} {next : Merger}
    (moved : world.merger.take count world.directory = some (after, next)) :
    (World.mk after world.writer next).Told ∧
      (World.mk after world.writer next).remaining < world.remaining := by
  have gone {pc : MergerPc} (different : pc ≠ .checking) (past : ¬pc.Waits) : ¬pc.Watches :=
    fun watches => watches.elim different past
  obtain ⟨directory, writer, merger⟩ := world
  obtain ⟨pc, position, metaBuf, fsm, out, handed⟩ := merger
  cases pc with
  | start | watchingDir | checking | opening | waiting | reopening | watchingMeta | splitting
  | polling | rechecking | checkingIdle | flushing | returned => contradiction
  | consuming saw =>
    simp only [Merger.take] at moved
    split at moved
    · contradiction
    · rename_i some
      cases moved
      have nearer := MergerPc.rank_consuming ((directory.dirQueue.take count).any namesSentinel)
        saw directory.metaFile.isSome
      refine ⟨?_, remaining_of_events rfl rfl nearer (length_drop_of_take some)⟩
      cases seen : (directory.dirQueue.take count).any namesSentinel || saw with
      | true =>
        have past : ¬(MergerPc.consuming true).Watches := gone (by simp) id
        exact told.past rfl past
      | false =>
        rw [Bool.or_eq_false_iff] at seen
        have unseen : saw = false := seen.2
        subst unseen
        refine ⟨told.there, fun _ => rfl, fun _ done => ?_⟩
        have queued := told.queued trivial done
        rw [← List.take_append_drop count directory.dirQueue] at queued
        refine (List.mem_append.mp queued).resolve_left fun early => ?_
        have named := List.any_eq_false.mp seen.1 _ early
        exact named (by decide)
  | consumingDir saw =>
    simp only [Merger.take] at moved
    split at moved
    · contradiction
    · rename_i some
      cases moved
      have same : (MergerPc.consumingDir ((directory.dirQueue.take count).any namesSentinel ||
          saw)).rank directory.metaFile.isSome =
          (MergerPc.consumingDir saw).rank directory.metaFile.isSome := rfl
      refine ⟨told.past rfl (gone (by simp) id), ?_⟩
      exact remaining_of_events rfl rfl (Nat.le_of_eq same) (length_drop_of_take some)
  | consumingMeta dirReady =>
    simp only [Merger.take] at moved
    split at moved
    · contradiction
    · rename_i some
      cases moved
      refine ⟨told.past rfl (gone (by simp) id), ?_⟩
      have shorter := length_drop_of_take some
      rw [Directory.metaQueue] at shorter
      simp only [World.remaining, MergerPc.rank, Directory.dirQueue, Directory.content,
        Directory.metaQueue, Option.getD_some]
      omega
  | draining resume =>
    simp only [Merger.take] at moved
    split at moved
    · contradiction
    · rename_i some
      cases moved
      refine ⟨told.past rfl (gone (by simp) id), ?_⟩
      have filled := List.length_pos_iff.mpr some
      rw [List.length_take, List.length_drop] at filled
      simp only [World.remaining, List.length_append, List.length_take, List.length_drop]
      omega

/-- A step of the merger keeps the wait loop told, and is one of the calls that remained when the
session is complete. -/
theorem World.Told.merger (told : world.Told)
    (fits : (buildArtifactPath session.src pipelineSentinelName).isSome = true)
    {act : MergerAct} {next : World}
    (stepped : world.step cjson session (.merger act) = some next) :
    next.Told ∧ next.writer = world.writer ∧
      (world.writer = .finished → next.remaining < world.remaining) := by
  obtain ⟨⟨after, merger⟩, moved, same⟩ := Option.map_eq_some_iff.mp stepped
  rw [← same]
  cases act with
  | advance nowMs =>
    have ⟨kept, nearer⟩ := told.advance fits moved
    exact ⟨kept, rfl, nearer⟩
  | take count =>
    have ⟨kept, nearer⟩ := told.take moved
    exact ⟨kept, rfl, fun _ => nearer⟩
  | expire =>
    rw [MergerAct.perform] at moved
    split at moved
    · rename_i waiting
      cases moved
      have past : ¬(MergerPc.returned 1).Watches := by
        rintro (other | waits) <;> contradiction
      refine ⟨told.past rfl past, rfl, fun _ => ?_⟩
      cases opened : world.directory.metaFile.isSome <;>
        simp [World.remaining, MergerPc.rank, waiting, opened]
    · contradiction

end Own

/-! ## Runs -/

/-- Nothing but a return keeps the merger from its next call. -/
theorem World.merger_moves (cjson : CJson) (session : Session) (world : World)
    (running : ∀ status, world.merger.pc ≠ .returned status) :
    ∃ act next, world.step cjson session (.merger act) = some next := by
  obtain ⟨directory, writer, merger⟩ := world
  suffices moves : ∃ act moved, MergerAct.perform cjson session directory merger act = some moved by
    obtain ⟨act, moved, performed⟩ := moves
    exact ⟨act, _, Option.map_eq_some_iff.mpr ⟨moved, performed, rfl⟩⟩
  have drops {α : Type} (queue : List α) (filled : queue ≠ []) : queue.take 1 ≠ [] := by
    cases queue with
    | nil => contradiction
    | cons => simp
  obtain ⟨pc, position, metaBuf, fsm, out, handed⟩ := merger
  cases pc with
  | returned status => exact absurd rfl (running status)
  | watchingDir | checking | watchingMeta | splitting | rechecking | checkingIdle | flushing =>
    exact ⟨.advance 0, _, rfl⟩
  | start | opening | waiting | reopening | polling =>
    refine ⟨.advance 0, ?_⟩
    simp only [MergerAct.perform, Merger.advance]
    split <;> try split
    all_goals exact ⟨_, rfl⟩
  | consuming saw =>
    by_cases filled : directory.dirQueue = []
    · refine ⟨.advance 0, ?_⟩
      simp only [MergerAct.perform, Merger.advance, filled]
      cases saw <;> exact ⟨_, rfl⟩
    · exact ⟨.take 1, _, if_neg (drops _ filled)⟩
  | consumingDir saw =>
    by_cases filled : directory.dirQueue = []
    · exact ⟨.advance 0, _, if_neg (not_not.mpr filled)⟩
    · exact ⟨.take 1, _, if_neg (drops _ filled)⟩
  | consumingMeta dirReady =>
    by_cases filled : directory.metaQueue = []
    · exact ⟨.advance 0, _, if_neg (not_not.mpr filled)⟩
    · exact ⟨.take 1, _, if_neg (drops _ filled)⟩
  | draining resume =>
    by_cases filled : directory.content.drop position = []
    · exact ⟨.advance 0, _, if_neg (not_not.mpr filled)⟩
    · exact ⟨.take 1, _, if_neg (drops _ filled)⟩

/-- A call of the merger. -/
def Event.isMerger : Event → Bool
  | .merger _ => true
  | _ => false

/-- An event of another file. -/
def Event.isOther : Event → Bool
  | .other _ => true
  | _ => false

/-- When the session is complete each call of the merger was due, and only another file adds one. -/
theorem World.Told.pays {cjson : CJson} {session : Session} {world next : World}
    (fits : (buildArtifactPath session.src pipelineSentinelName).isSome = true)
    (told : world.Told) (complete : world.writer = .finished) {event : Event}
    (stepped : world.step cjson session event = some next) :
    (next.Told ∧ next.writer = .finished) ∧
      next.remaining + event.isMerger.toNat ≤ world.remaining + event.isOther.toNat := by
  cases event with
  | writer act =>
    have kept := told.writer stepped
    obtain ⟨⟨after, following⟩, moved, same⟩ := Option.map_eq_some_iff.mp stepped
    rw [complete] at moved
    cases act with
    | makeBin =>
      cases moved
      rw [← same] at kept ⊢
      exact ⟨⟨kept, rfl⟩, Nat.le_refl _⟩
    | openMeta | beginLine | write | closeMeta | makeSentinel | closeSentinel => contradiction
  | other name =>
    have kept := told.other stepped
    rw [World.step] at stepped
    split at stepped
    · contradiction
    · rw [← Option.some.inj stepped] at kept ⊢
      refine ⟨⟨kept, complete⟩, ?_⟩
      have longer : (world.directory.report name).dirQueue.length ≤
          world.directory.dirQueue.length + 1 := by
        rw [Directory.dirQueue, Directory.dirQueue, Directory.report]
        cases world.directory.dirEvents <;> simp
      have content : (world.directory.report name).content = world.directory.content := rfl
      have opened : (world.directory.report name).metaFile = world.directory.metaFile := rfl
      have others : (world.directory.report name).metaQueue = world.directory.metaQueue := rfl
      simp only [World.remaining, content, opened, others, Event.isMerger, Event.isOther,
        Bool.toNat_false, Bool.toNat_true]
      omega
  | merger act =>
    obtain ⟨kept, still, nearer⟩ := told.merger fits stepped
    exact ⟨⟨kept, still.trans complete⟩, nearer complete⟩

/-- The wait loop is told in every run. -/
theorem World.told_of_run {cjson : CJson} {session : Session} {events : List Event} {last : World}
    (fits : (buildArtifactPath session.src pipelineSentinelName).isSome = true)
    (ran : Runs.run (World.step cjson session) World.initial events = some last) : last.Told := by
  refine Runs.stable (fun state event next told stepped => ?_) World.told_initial ran
  cases event with
  | writer act => exact told.writer stepped
  | other name => exact told.other stepped
  | merger act => exact (told.merger fits stepped).1

/-- However far the merger is, its rank is at most that of its start. -/
theorem MergerPc.rank_le (pc : MergerPc) (opened : Bool) : pc.rank opened ≤ 20 := by
  cases pc with
  | draining resume | splitting resume =>
    rcases resume with (_ | _) | _ | _ <;> simp [MergerPc.rank]
  | consuming saw => cases saw <;> cases opened <;> simp [MergerPc.rank]
  | watchingMeta saw | checkingIdle saw => cases saw <;> simp [MergerPc.rank]
  | reopening | waiting => cases opened <;> simp [MergerPc.rank]
  | _ => simp [MergerPc.rank]

/-- From any point where the session is complete the merger makes at most twenty calls, two for
each unread byte, and one for each byte of its buffer and each event, those of other files that
arrive meanwhile included; and until it has returned, its next call does not wait for anyone. -/
theorem complete_session_returns (cjson : CJson) (session : Session)
    (fits : (buildArtifactPath session.src pipelineSentinelName).isSome = true)
    (before after : List Event) (world last : World)
    (ran : Runs.run (World.step cjson session) World.initial before = some world)
    (complete : world.writer = .finished)
    (continues : Runs.run (World.step cjson session) world after = some last) :
    after.countP Event.isMerger ≤
        20 + 2 * (world.directory.content.length - world.merger.position) +
          world.merger.metaBuf.length + world.directory.dirQueue.length +
          world.directory.metaQueue.length + after.countP Event.isOther ∧
      ((∃ status, last.merger.pc = .returned status) ∨
        ∃ act next, last.step cjson session (.merger act) = some next) := by
  constructor
  · have told := World.told_of_run fits ran
    have paid : last.remaining + after.countP Event.isMerger ≤
        world.remaining + after.countP Event.isOther :=
      Runs.countP_le
        (fun state event next (holds : state.Told ∧ state.writer = .finished) stepped =>
          holds.1.pays fits holds.2 stepped)
        ⟨told, complete⟩ continues
    have bounded := world.merger.pc.rank_le world.directory.metaFile.isSome
    simp only [World.remaining] at paid
    omega
  · by_cases ended : ∃ status, last.merger.pc = .returned status
    · exact .inl ended
    · exact .inr (last.merger_moves cjson session fun status same => ended ⟨status, same⟩)

/-- The merger has half a line and no event when its session is complete, and it returns. -/
theorem complete_session_returns_halfLine :
    (halfLine.drop 16).countP Event.isMerger ≤
        20 + 2 * ((runEnd (halfLine.take 16)).directory.content.length -
            (runEnd (halfLine.take 16)).merger.position) +
          (runEnd (halfLine.take 16)).merger.metaBuf.length +
          (runEnd (halfLine.take 16)).directory.dirQueue.length +
          (runEnd (halfLine.take 16)).directory.metaQueue.length +
          (halfLine.drop 16).countP Event.isOther ∧
      ((∃ status, (runEnd halfLine).merger.pc = .returned status) ∨
        ∃ act next, (runEnd halfLine).step Codec.sampleJson shortSession (.merger act) =
          some next) := by
  have ran : Runs.run (World.step Codec.sampleJson shortSession) World.initial (halfLine.take 16) =
      some (runEnd (halfLine.take 16)) := Runs.run_eq_getD (by decide +kernel) _
  have whole : Runs.run (World.step Codec.sampleJson shortSession) World.initial halfLine =
      some (runEnd halfLine) := Runs.run_eq_getD (by decide +kernel) _
  apply complete_session_returns Codec.sampleJson shortSession (by decide) (halfLine.take 16)
    (halfLine.drop 16) _ _ ran (by decide +kernel)
  rw [← Runs.run_append ran, List.take_append_drop]
  exact whole

end StreamPipeline.Merge
