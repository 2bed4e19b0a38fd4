import StreamPipeline.Dispatch.Rules

/-!
# Pipes between the children

Every child is forked from the table that holds both pipes, moves its two ends behind its
standard descriptors and closes all four pipe descriptors by number. This is right as long as no
pipe descriptor is itself a standard one: a dispatcher started without descriptor 0 or 1 gives
that number to a pipe, and the child closes what it has just put there.
-/

namespace StreamPipeline.Dispatch

open Descriptors

/-! ## The tables of the dispatcher -/

section Tables

variable (opened : List (Option Nat))

/-- The descriptors at the start. -/
def startTable : Table File := opened.map fun file => file.map File.inherited

/-- The descriptors of `pipe1` and the table that holds it. -/
def firstPipe : (Nat × Nat) × Table File :=
  pipe (startTable opened) (.readEnd .first) (.writeEnd .first)

/-- The descriptors of `pipe2` and the table that holds both. -/
def secondPipe : (Nat × Nat) × Table File :=
  pipe (firstPipe opened).2 (.readEnd .second) (.writeEnd .second)

/-- The four pipe descriptors. -/
def pipeFds : List Nat :=
  [(firstPipe opened).1.1, (firstPipe opened).1.2, (secondPipe opened).1.1,
    (secondPipe opened).1.2]

/-- The descriptor of an argument. -/
def wireFd (standard : Nat) : Wire → Nat
  | .standard => standard
  | .readEnd .first => (firstPipe opened).1.1
  | .writeEnd .first => (firstPipe opened).1.2
  | .readEnd .second => (secondPipe opened).1.1
  | .writeEnd .second => (secondPipe opened).1.2

end Tables

/-- A file is an end of a pipe. -/
def File.IsPipe : File → Prop
  | .inherited _ => False
  | _ => True

/-- A table without ends of pipes. -/
def NoPipes (table : Table File) : Prop := ∀ fd file, fileAt table fd = some file → ¬file.IsPipe

/-- The files of the start are no pipes. -/
theorem noPipes_startTable (opened : List (Option Nat)) : NoPipes (startTable opened) := by
  intro fd file found
  induction opened generalizing fd with
  | nil => simp [startTable, fileAt] at found
  | cons entry opened ih =>
    cases fd with
    | zero =>
      obtain ⟨number, -, rfl⟩ := Option.map_eq_some_iff.mp found
      exact id
    | succ fd => exact ih fd found

section Pipe

variable (table : Table File) (readEnd writeEnd : File)

/-- The write end of a pipe is behind a higher descriptor than the read end. -/
theorem pipe_lt : (pipe table readEnd writeEnd).1.1 < (pipe table readEnd writeEnd).1.2 := by
  have free := fileAt_lowestFree (put table (lowestFree table) (some readEnd))
  rw [fileAt_put] at free
  split at free
  · contradiction
  · rename_i apart
    have above := lowestFree_le free
    show lowestFree table < lowestFree (put table (lowestFree table) (some readEnd))
    omega

/-- The descriptors of a pipe were free. -/
theorem pipe_free : fileAt table (pipe table readEnd writeEnd).1.1 = none ∧
    fileAt table (pipe table readEnd writeEnd).1.2 = none := by
  refine ⟨fileAt_lowestFree table, ?_⟩
  have free := fileAt_lowestFree (put table (lowestFree table) (some readEnd))
  rw [fileAt_put] at free
  split at free
  · contradiction
  · exact free

/-- The table with a pipe. -/
theorem fileAt_pipe (fd : Nat) : fileAt (pipe table readEnd writeEnd).2 fd =
    if fd = (pipe table readEnd writeEnd).1.2 then some writeEnd
    else if fd = (pipe table readEnd writeEnd).1.1 then some readEnd else fileAt table fd := by
  show fileAt (put (put table (lowestFree table) (some readEnd))
    (lowestFree (put table (lowestFree table) (some readEnd))) (some writeEnd)) fd = _
  rw [fileAt_put, fileAt_put]
  rfl

/-- A pipe takes each of the two lowest descriptors that is free. -/
theorem mem_pipe_of_free {fd : Nat} (low : fd < 2) (free : fileAt table fd = none) :
    fd = (pipe table readEnd writeEnd).1.1 ∨ fd = (pipe table readEnd writeEnd).1.2 := by
  have lower := pipe_lt table readEnd writeEnd
  have first : (pipe table readEnd writeEnd).1.1 ≤ fd := lowestFree_le free
  by_cases same : fd = (pipe table readEnd writeEnd).1.1
  · exact .inl same
  · have second : (pipe table readEnd writeEnd).1.2 ≤ fd := by
      apply lowestFree_le
      show fileAt (put table (lowestFree table) (some readEnd)) fd = none
      rw [fileAt_put]
      exact (if_neg same).trans free
    omega

end Pipe

section Tables

variable (opened : List (Option Nat))

/-- A standard descriptor goes to a pipe exactly when it was closed. -/
theorem mem_pipeFds_iff {fd : Nat} (low : fd < 2) :
    fd ∈ pipeFds opened ↔ fileAt (startTable opened) fd = none := by
  have first := pipe_free (startTable opened) (.readEnd .first) (.writeEnd .first)
  have second := pipe_free (firstPipe opened).2 (.readEnd .second) (.writeEnd .second)
  have was {number : Nat} (free : fileAt (firstPipe opened).2 number = none) :
      fileAt (startTable opened) number = none := by
    rw [firstPipe, fileAt_pipe] at free
    split at free
    · contradiction
    · split at free
      · contradiction
      · exact free
  simp only [pipeFds, List.mem_cons, List.not_mem_nil, or_false]
  constructor
  · rintro (rfl | rfl | rfl | rfl)
    · exact first.1
    · exact first.2
    · exact was second.1
    · exact was second.2
  · intro free
    rcases mem_pipe_of_free _ (.readEnd .first) (.writeEnd .first) low free with same | same
    · exact .inl same
    · exact .inr (.inl same)

/-- The table with both pipes. -/
theorem fileAt_secondPipe (fd : Nat) : fileAt (secondPipe opened).2 fd =
    if fd = (secondPipe opened).1.2 then some (.writeEnd .second)
    else if fd = (secondPipe opened).1.1 then some (.readEnd .second)
    else if fd = (firstPipe opened).1.2 then some (.writeEnd .first)
    else if fd = (firstPipe opened).1.1 then some (.readEnd .first)
    else fileAt (startTable opened) fd := by
  rw [secondPipe, fileAt_pipe, firstPipe, fileAt_pipe]

end Tables

/-! ## The table of a child -/

/-- A redirection puts the file of the descriptor behind the target. -/
theorem fileAt_redirect {table next : Table File} {fd : Option Nat} {target : Nat}
    (moved : redirect table fd target = some next) (other : Nat) :
    fileAt next other = if other = target then fd.bind (fileAt table) else fileAt table other := by
  unfold redirect at moved
  split at moved
  · rename_i same
    rw [← Option.some.inj moved, same]
    split
    · rename_i here
      rw [here]
      rfl
    · rfl
  · obtain ⟨number, rfl, moved⟩ := Option.bind_eq_some_iff.mp moved
    obtain ⟨file, found, rfl⟩ := Option.map_eq_some_iff.mp moved
    rw [fileAt_put, Option.bind_some, found]

/-- A closed descriptor of `close_fds`. -/
theorem fileAt_closeFd (table : Table File) (fd : Option Nat) (other : Nat) :
    fileAt (closeFd table fd) other = if some other = fd then none else fileAt table other := by
  cases fd with
  | none => simp [closeFd]
  | some fd => simp [closeFd]

/-- The files behind the descriptors once standard input is redirected. -/
def Process.withStdin (process : Process) (base : Table File) (fd : Nat) : Option File :=
  if fd = 0 then process.stdinFd.bind (fileAt base) else fileAt base fd

/-- The files once both are. -/
def Process.redirected (process : Process) (base : Table File) (fd : Nat) : Option File :=
  if fd = 1 then process.stdoutFd.bind (process.withStdin base) else process.withStdin base fd

/-- The table of a child is what its steps have made of the table at its `fork`. -/
def Process.Placed (process : Process) (base : Table File) : Prop :=
  match process.phase with
  | .dupStdin => process.table = base
  | .dupStdout => ∀ fd, fileAt process.table fd = process.withStdin base fd
  | .closing rest => ∃ done, process.closeFds = done ++ rest ∧ ∀ fd,
      fileAt process.table fd = if some fd ∈ done then none else process.redirected base fd
  | .execv | .running => ∀ fd, fileAt process.table fd =
      if some fd ∈ process.closeFds then none else process.redirected base fd
  | .ended _ => True

/-- The applet is about to start, or runs. -/
def Process.AtExec (process : Process) : Prop :=
  process.phase = .execv ∨ process.phase = .running

/-- A step keeps the table in its place, and the arguments. -/
theorem Process.Placed.advance {process next : Process} {base : Table File}
    (placed : process.Placed base) (moved : process.advance = some next) :
    next.Placed base ∧ next.stdinFd = process.stdinFd ∧ next.stdoutFd = process.stdoutFd ∧
      next.closeFds = process.closeFds := by
  unfold Process.advance at moved
  split at moved
  · rename_i here
    obtain ⟨table, made, rfl⟩ := Option.map_eq_some_iff.mp moved
    simp only [Placed, here] at placed
    refine ⟨?_, rfl, rfl, rfl⟩
    intro fd
    rw [placed] at made
    exact fileAt_redirect made fd
  · rename_i here
    obtain ⟨table, made, rfl⟩ := Option.map_eq_some_iff.mp moved
    simp only [Placed, here] at placed
    refine ⟨⟨[], rfl, fun fd => ?_⟩, rfl, rfl, rfl⟩
    have same : fileAt process.table = process.withStdin base := funext placed
    rw [fileAt_redirect made, same]
    rfl
  · rename_i here
    rw [← Option.some.inj moved]
    simp only [Placed, here, List.append_nil] at placed
    obtain ⟨done, whole, files⟩ := placed
    refine ⟨fun fd => ?_, rfl, rfl, rfl⟩
    rw [whole]
    exact files fd
  · rename_i entry rest here
    rw [← Option.some.inj moved]
    simp only [Placed, here] at placed
    obtain ⟨done, whole, files⟩ := placed
    refine ⟨⟨done ++ [entry], by simpa using whole, fun fd => ?_⟩, rfl, rfl, rfl⟩
    show fileAt (closeFd process.table entry) fd = _
    rw [fileAt_closeFd, files]
    by_cases same : some fd = entry
    · simp [same]
    · simp only [List.mem_append, List.mem_singleton, same, or_false, if_false]
      rfl
  · rename_i here
    rw [← Option.some.inj moved]
    simp only [Placed, here] at placed
    exact ⟨placed, rfl, rfl, rfl⟩
  · contradiction
  · contradiction

/-- A step of a process keeps the table in its place, and the arguments. -/
theorem ProcessRule.placed {index : Nat} {process next : Process} {event : Event}
    {base : Table File} (placed : process.Placed base)
    (moved : ProcessRule index process event next) :
    next.Placed base ∧ next.stdinFd = process.stdinFd ∧ next.stdoutFd = process.stdoutFd ∧
      next.closeFds = process.closeFds := by
  cases moved with
  | advance moved => exact placed.advance moved
  | exit moved =>
    rw [Process.exit_eq moved]
    exact ⟨trivial, rfl, rfl, rfl⟩
  | term moved =>
    rcases Process.deliverTerm_cases moved with ⟨-, same⟩ | ⟨-, same⟩
    · rw [same]
      exact ⟨trivial, rfl, rfl, rfl⟩
    · rw [same]
      exact ⟨placed, rfl, rfl, rfl⟩

/-! ## The invariant of a run -/

/-- A child holds the arguments of its wiring, and its table is in place. -/
structure Process.Carries (process : Process) (opened : List (Option Nat)) (wiring : Wiring) :
    Prop where
  stdin : process.stdinFd = some (wireFd opened 0 wiring.stdin)
  stdout : process.stdoutFd = some (wireFd opened 1 wiring.stdout)
  closes : process.closeFds = (pipeFds opened).map some
  placed : process.Placed (secondPipe opened).2

namespace World

/-- The dispatcher holds no pipe. -/
structure Sealed (world : World) : Prop where
  table : NoPipes world.table
  pipe1 : world.pipe1 = (none, none)
  pipe2 : world.pipe2 = (none, none)

/-- The dispatcher holds both pipes. -/
structure BothOpen (world : World) (opened : List (Option Nat)) : Prop where
  table : world.table = (secondPipe opened).2
  pipe1 : world.pipe1 = (some (firstPipe opened).1.1, some (firstPipe opened).1.2)
  pipe2 : world.pipe2 = (some (secondPipe opened).1.1, some (secondPipe opened).1.2)

/-- What the dispatcher holds, by where it is. -/
def Holds (world : World) (opened : List (Option Nat)) : Prop :=
  match world.pc with
  | .pipe1 => world.table = startTable opened ∧ world.pipe1 = (none, none) ∧
      world.pipe2 = (none, none)
  | .pipe2 => world.table = (firstPipe opened).2 ∧
      world.pipe1 = (some (firstPipe opened).1.1, some (firstPipe opened).1.2) ∧
      world.pipe2 = (none, none)
  | .spawn _ | .closePipes => world.BothOpen opened
  | .cleanup _ => world.BothOpen opened ∨ world.Sealed
  | _ => world.Sealed

/-- The dispatcher is where it should be, and so is every child. -/
structure Wired (world : World) (opened : List (Option Nat)) (wirings : List Wiring) : Prop where
  entries : world.slots.map Slot.wiring = wirings
  dispatcher : world.Holds opened
  children : ∀ (index : Nat) (wiring : Wiring) (process : Process),
    wirings[index]? = some wiring → world.childAt index = some (.alive process) →
      process.Carries opened wiring

end World

/-- A loop of `close` frees the descriptors it goes over. -/
theorem fileAt_foldl_closeFd (fds : List (Option Nat)) (table : Table File) (fd : Nat) :
    fileAt (fds.foldl closeFd table) fd = if some fd ∈ fds then none else fileAt table fd := by
  induction fds generalizing table with
  | nil => simp
  | cons entry fds ih =>
    rw [List.foldl_cons, ih, fileAt_closeFd]
    by_cases same : some fd = entry
    · simp [same]
    · simp [same]

/-- The dispatcher holds no pipe behind `close_pipe_fds` when every pipe descriptor is known. -/
theorem sealed_closePipeFds {world : World}
    (known : ∀ fd file, fileAt world.table fd = some file → file.IsPipe →
      some fd ∈ world.allPipes) : world.closePipeFds.Sealed where
  table := by
    intro fd file found isPipe
    have entry : fileAt (world.allPipes.foldl closeFd world.table) fd = some file := found
    rw [fileAt_foldl_closeFd] at entry
    split at entry
    · contradiction
    · rename_i outside
      exact outside (known fd file entry isPipe)
  pipe1 := rfl
  pipe2 := rfl

/-- The pipes of the table with both are behind the four descriptors. -/
theorem mem_pipeFds_of_isPipe (opened : List (Option Nat)) {fd : Nat} {file : File}
    (found : fileAt (secondPipe opened).2 fd = some file) (isPipe : file.IsPipe) :
    fd ∈ pipeFds opened := by
  simp only [pipeFds, List.mem_cons, List.not_mem_nil, or_false]
  rw [fileAt_secondPipe] at found
  split at found
  · rename_i same
    exact .inr (.inr (.inr same))
  split at found
  · rename_i same
    exact .inr (.inr (.inl same))
  split at found
  · rename_i same
    exact .inr (.inl same)
  split at found
  · rename_i same
    exact .inl same
  · exact absurd isPipe (noPipes_startTable opened fd file found)

namespace World

variable {world next : World} {opened : List (Option Nat)} {wirings : List Wiring}

/-- Closing both pipes seals the table. -/
theorem BothOpen.close (both : world.BothOpen opened) : world.closePipeFds.Sealed := by
  apply sealed_closePipeFds
  intro fd file found isPipe
  rw [both.table] at found
  have inside := mem_pipeFds_of_isPipe opened found isPipe
  simpa [allPipes, both.pipe1, both.pipe2, pipeFds] using inside

/-- Closing again changes nothing. -/
theorem Sealed.close (closed : world.Sealed) : world.closePipeFds.Sealed := by
  apply sealed_closePipeFds
  intro fd file found isPipe
  exact absurd isPipe (closed.table fd file found)

/-- What the dispatcher holds depends on its place, its table and its descriptors alone. -/
theorem Holds.same (holds : world.Holds opened) (pc : next.pc = world.pc)
    (table : next.table = world.table) (pipe1 : next.pipe1 = world.pipe1)
    (pipe2 : next.pipe2 = world.pipe2) : next.Holds opened := by
  have both (open_ : world.BothOpen opened) : next.BothOpen opened :=
    ⟨table.trans open_.table, pipe1.trans open_.pipe1, pipe2.trans open_.pipe2⟩
  have closed (shut : world.Sealed) : next.Sealed :=
    ⟨table ▸ shut.table, pipe1.trans shut.pipe1, pipe2.trans shut.pipe2⟩
  unfold Holds at holds ⊢
  rw [pc]
  split at holds
  · rwa [table, pipe1, pipe2]
  · rwa [table, pipe1, pipe2]
  · exact both holds
  · exact both holds
  · exact holds.imp both closed
  · exact closed holds

/-- Only the entries of the children count. -/
theorem Wired.of_slots (wired : world.Wired opened wirings) (same : next.slots = world.slots)
    (holds : next.Holds opened) : next.Wired opened wirings where
  entries := by rw [same, wired.entries]
  dispatcher := holds
  children := by
    intro index wiring process listed found
    rw [childAt, same] at found
    exact wired.children index wiring process listed found

/-- A replaced entry stays in place when its process does. -/
theorem Wired.set (wired : world.Wired opened wirings) (index : Nat) (child : Child)
    (same : next.slots = (world.setChild index child).slots) (holds : next.Holds opened)
    (carries : ∀ wiring process, wirings[index]? = some wiring → child = .alive process →
      process.Carries opened wiring) : next.Wired opened wirings where
  entries := by
    have kept : (world.setChild index child).slots.map Slot.wiring =
        world.slots.map Slot.wiring := by
      rw [setChild]
      apply List.ext_getElem?
      intro place
      rw [List.getElem?_map, List.getElem?_map, List.getElem?_modify]
      cases world.slots[place]? with
      | none => rfl
      | some slot =>
        by_cases here : index = place
        · simp [here]
        · simp [here]
    rw [same, kept, wired.entries]
  dispatcher := holds
  children := by
    intro other wiring process listed found
    rw [childAt, same, ← childAt, childAt_setChild] at found
    split at found
    · rename_i here
      rw [here] at listed
      obtain ⟨_, -, alive⟩ := Option.map_eq_some_iff.mp found
      exact carries wiring process listed alive
    · exact wired.children other wiring process listed found

/-- An entry whose process was waited for needs nothing. -/
theorem Wired.reap (wired : world.Wired opened wirings) (index : Nat) (process : Process)
    (status : Status) (same : next.slots = (world.setChild index (.reaped process status)).slots)
    (holds : next.Holds opened) : next.Wired opened wirings := by
  apply wired.set index (.reaped process status) same holds
  intro wiring other listed impossible
  contradiction

/-- The start is wired. -/
theorem wired_start (wirings : List Wiring) (opened : List (Option Nat)) :
    (start wirings opened).Wired opened wirings where
  entries := by simp [start, Function.comp_def]
  dispatcher := ⟨rfl, rfl, rfl⟩
  children := by
    intro index wiring process listed found
    simp [childAt, start, listed] at found

/-- A forked child starts with the arguments of its wiring. -/
theorem spawned_carries (both : world.BothOpen opened) (wiring : Wiring) {pid : Nat}
    (positive : 0 < pid) : (world.spawned wiring pid positive).Carries opened wiring where
  stdin := by
    show world.fdOf 0 wiring.stdin = _
    cases wiring.stdin with
    | standard => rfl
    | readEnd pipe => cases pipe <;> simp [fdOf, wireFd, both.pipe1, both.pipe2]
    | writeEnd pipe => cases pipe <;> simp [fdOf, wireFd, both.pipe1, both.pipe2]
  stdout := by
    show world.fdOf 1 wiring.stdout = _
    cases wiring.stdout with
    | standard => rfl
    | readEnd pipe => cases pipe <;> simp [fdOf, wireFd, both.pipe1, both.pipe2]
    | writeEnd pipe => cases pipe <;> simp [fdOf, wireFd, both.pipe1, both.pipe2]
  closes := by simp [spawned, allPipes, pipeFds, both.pipe1, both.pipe2]
  placed := both.table

/-- Every step keeps the world wired. -/
theorem Wired.step {event : Event} (wired : world.Wired opened wirings)
    (stepped : world.step event = some next) : next.Wired opened wirings := by
  have holds := wired.dispatcher
  have rule := step_rule stepped
  cases rule with
  | pipe1 here made =>
    rw [Holds, here] at holds
    obtain ⟨table, pipe1, pipe2⟩ := holds
    rw [table] at made
    subst made
    exact wired.of_slots rfl ⟨rfl, rfl, pipe2⟩
  | pipe2 here made =>
    rw [Holds, here] at holds
    obtain ⟨table, pipe1, pipe2⟩ := holds
    rw [table] at made
    subst made
    exact wired.of_slots rfl ⟨rfl, pipe1, rfl⟩
  | allSpawned here =>
    rw [Holds, here] at holds
    exact wired.of_slots rfl ⟨holds.table, holds.pipe1, holds.pipe2⟩
  | closePipes here =>
    rw [Holds, here] at holds
    have closed := holds.close
    exact wired.of_slots rfl ⟨closed.table, rfl, rfl⟩
  | stop here =>
    rw [Holds, here] at holds
    exact wired.of_slots rfl (.inr ⟨holds.table, holds.pipe1, holds.pipe2⟩)
  | cleanup here =>
    rw [Holds, here] at holds
    have closed : world.closePipeFds.Sealed := by
      rcases holds with both | closed
      · exact both.close
      · exact closed.close
    exact wired.of_slots rfl ⟨closed.table, rfl, rfl⟩
  | supervise here | waited here | passWait here | block here | giveUp here | ignore here
  | killed here | passKill here | finished here | passReap here =>
    rw [Holds, here] at holds
    exact wired.of_slots rfl ⟨holds.table, holds.pipe1, holds.pipe2⟩
  | @reapWait index _ process status here =>
    have closed : world.Sealed := by
      rcases here with here | here
      · rwa [Holds, here] at holds
      · rwa [Holds, here] at holds
    exact wired.reap index process status rfl ⟨closed.table, closed.pipe1, closed.pipe2⟩
  | @reapKill index _ process status here =>
    rw [Holds, here] at holds
    exact wired.reap index process status rfl ⟨holds.table, holds.pipe1, holds.pipe2⟩
  | @sendTerm index _ process here found =>
    rw [Holds, here] at holds
    refine wired.set index (.alive process.kill) rfl ⟨holds.table, holds.pipe1, holds.pipe2⟩ ?_
    rintro wiring _ listed ⟨⟩
    have carries := wired.children _ wiring _ listed found
    exact ⟨carries.stdin, carries.stdout, carries.closes, carries.placed⟩
  | @fork index pid slot positive here found =>
    rw [Holds, here] at holds
    refine wired.set index (.alive (world.spawned slot.wiring pid positive)) rfl
      ⟨holds.table, holds.pipe1, holds.pipe2⟩ ?_
    rintro wiring _ listed ⟨⟩
    rw [← wired.entries, List.getElem?_map, found] at listed
    rw [← Option.some.inj listed]
    exact spawned_carries holds _ positive
  | pipe1Fails here =>
    rw [Holds, here] at holds
    obtain ⟨table, pipe1, pipe2⟩ := holds
    exact wired.of_slots rfl ⟨table ▸ noPipes_startTable opened, pipe1, pipe2⟩
  | pipe2Fails here =>
    rw [Holds, here] at holds
    obtain ⟨table, pipe1, pipe2⟩ := holds
    have closed : world.closePipeFds.Sealed := by
      apply sealed_closePipeFds
      intro fd file found isPipe
      rw [table, firstPipe, fileAt_pipe] at found
      simp only [allPipes, pipe1, pipe2, firstPipe]
      split at found
      · rename_i same
        simp [same]
      split at found
      · rename_i same
        simp [same]
      · exact absurd isPipe (noPipes_startTable opened fd file found)
    exact wired.of_slots rfl ⟨closed.table, rfl, rfl⟩
  | forkFails here =>
    rw [Holds, here] at holds
    exact wired.of_slots rfl (.inl ⟨holds.table, holds.pipe1, holds.pipe2⟩)
  | signal => exact wired.of_slots rfl (holds.same rfl rfl rfl rfl)
  | interrupt here =>
    rw [Holds, here] at holds
    exact wired.of_slots rfl ⟨holds.table, holds.pipe1, holds.pipe2⟩
  | @process index _ after _ found moved =>
    refine wired.set index (.alive after) rfl (holds.same rfl rfl rfl rfl) ?_
    rintro wiring _ listed ⟨⟩
    have carries := wired.children _ wiring _ listed found
    obtain ⟨placed, stdin, stdout, closes⟩ := moved.placed carries.placed
    exact ⟨stdin.trans carries.stdin, stdout.trans carries.stdout, closes.trans carries.closes,
      placed⟩

end World

/-! ## What a child finds -/

/-- The file an argument names; none where the child keeps its own. -/
def Wire.file : Wire → Option File
  | .standard => none
  | .readEnd pipe => some (.readEnd pipe)
  | .writeEnd pipe => some (.writeEnd pipe)

/-- The standard descriptors hold the given ends of pipes, and no other descriptor holds one. -/
structure RightEnds (table : Table File) (stdin stdout : Option File) : Prop where
  atStdin : ∀ file ∈ stdin, fileAt table 0 = some file
  atStdout : ∀ file ∈ stdout, fileAt table 1 = some file
  nothingElse : ∀ fd file, fileAt table fd = some file → file.IsPipe →
    (fd = 0 ∧ stdin = some file) ∨ (fd = 1 ∧ stdout = some file)

section Wires

variable (opened : List (Option Nat))

/-- The ends of the second pipe are not behind the descriptors of the first. -/
theorem secondPipe_fresh {fd : Nat} (free : fileAt (firstPipe opened).2 fd = none) :
    fd ≠ (firstPipe opened).1.1 ∧ fd ≠ (firstPipe opened).1.2 := by
  rw [firstPipe, fileAt_pipe] at free
  split at free
  · contradiction
  · rename_i write
    split at free
    · contradiction
    · rename_i read
      exact ⟨read, write⟩

/-- The descriptor of an argument holds its file. -/
theorem fileAt_wireFd (standard : Nat) {wire : Wire} {file : File} (named : wire.file = some file) :
    fileAt (secondPipe opened).2 (wireFd opened standard wire) = some file := by
  have first := pipe_lt (startTable opened) (.readEnd .first) (.writeEnd .first)
  have second := pipe_lt (firstPipe opened).2 (.readEnd .second) (.writeEnd .second)
  have free := pipe_free (firstPipe opened).2 (.readEnd .second) (.writeEnd .second)
  obtain ⟨readRead, readWrite⟩ := secondPipe_fresh opened free.1
  obtain ⟨writeRead, writeWrite⟩ := secondPipe_fresh opened free.2
  rw [← firstPipe] at first
  rw [← secondPipe] at second readRead readWrite writeRead writeWrite
  rw [← named, fileAt_secondPipe]
  cases wire with
  | standard => contradiction
  | readEnd pipe =>
    cases pipe with
    | first => simp [wireFd, Wire.file, readRead.symm, writeRead.symm, first.ne]
    | second => simp [wireFd, Wire.file, second.ne]
  | writeEnd pipe =>
    cases pipe with
    | first => simp [wireFd, Wire.file, readWrite.symm, writeWrite.symm]
    | second => simp [wireFd, Wire.file]

/-- An argument that leads to a pipe names it, unless it is a standard descriptor that went to a
pipe. -/
theorem file_eq_of_wireFd {standard : Nat} {wire : Wire} {file : File}
    (outside : standard ∉ pipeFds opened)
    (found : fileAt (secondPipe opened).2 (wireFd opened standard wire) = some file)
    (isPipe : file.IsPipe) : wire.file = some file := by
  cases named : wire.file with
  | some own => rw [← found, fileAt_wireFd opened standard named]
  | none =>
    have same : wire = .standard := by
      cases wire with
      | standard => rfl
      | readEnd pipe => contradiction
      | writeEnd pipe => contradiction
    rw [same] at found
    exact absurd (mem_pipeFds_of_isPipe opened found isPipe) outside

/-- A write end is not behind descriptor 0. -/
theorem wireFd_stdout_ne_zero {wire : Wire} (writes : ∀ pipe, wire ≠ .readEnd pipe) :
    wireFd opened 1 wire ≠ 0 := by
  have first := pipe_lt (startTable opened) (.readEnd .first) (.writeEnd .first)
  have second := pipe_lt (firstPipe opened).2 (.readEnd .second) (.writeEnd .second)
  cases wire with
  | standard => exact Nat.one_ne_zero
  | readEnd pipe => exact absurd rfl (writes pipe)
  | writeEnd pipe =>
    cases pipe with
    | first => exact Nat.ne_zero_of_lt first
    | second => exact Nat.ne_zero_of_lt second

end Wires

section Exec

variable {process : Process} {opened : List (Option Nat)} {wiring : Wiring}

/-- The table of a child at `execv`. -/
theorem Process.Carries.fileAt_exec (carries : process.Carries opened wiring)
    (exec : process.AtExec) (writes : ∀ pipe, wiring.stdout ≠ .readEnd pipe) (fd : Nat) :
    fileAt process.table fd =
      if fd ∈ pipeFds opened then none
      else if fd = 1 then fileAt (secondPipe opened).2 (wireFd opened 1 wiring.stdout)
      else if fd = 0 then fileAt (secondPipe opened).2 (wireFd opened 0 wiring.stdin)
      else fileAt (secondPipe opened).2 fd := by
  have files : fileAt process.table fd =
      if some fd ∈ process.closeFds then none
      else process.redirected (secondPipe opened).2 fd := by
    have placed := carries.placed
    rcases exec with here | here
    · rw [Placed, here] at placed
      exact placed fd
    · rw [Placed, here] at placed
      exact placed fd
  have listed : some fd ∈ (pipeFds opened).map some ↔ fd ∈ pipeFds opened := by simp
  rw [files, carries.closes, redirected, carries.stdout]
  simp only [listed, withStdin, carries.stdin, Option.bind_some,
    if_neg (wireFd_stdout_ne_zero opened writes)]

/-- A child finds its ends exactly when the descriptors they go to were open at the start. -/
theorem Process.Carries.rightEnds_iff (carries : process.Carries opened wiring)
    (exec : process.AtExec) (writes : ∀ pipe, wiring.stdout ≠ .readEnd pipe) :
    RightEnds process.table wiring.stdin.file wiring.stdout.file ↔
      (wiring.stdin.file ≠ none → fileAt (startTable opened) 0 ≠ none) ∧
        (wiring.stdout.file ≠ none → fileAt (startTable opened) 1 ≠ none) := by
  have files := carries.fileAt_exec exec writes
  have stdin := mem_pipeFds_iff opened (show 0 < 2 by decide)
  have stdout := mem_pipeFds_iff opened (show 1 < 2 by decide)
  constructor
  · intro right
    constructor
    · intro named free
      obtain ⟨file, named⟩ := Option.ne_none_iff_exists'.mp named
      have found := right.atStdin file named
      rw [files, if_pos (stdin.mpr free)] at found
      contradiction
    · intro named free
      obtain ⟨file, named⟩ := Option.ne_none_iff_exists'.mp named
      have found := right.atStdout file named
      rw [files, if_pos (stdout.mpr free)] at found
      contradiction
  · rintro ⟨openIn, openOut⟩
    constructor
    · intro file named
      have outside : 0 ∉ pipeFds opened := fun inside =>
        openIn (by simp [Option.mem_def.mp named]) (stdin.mp inside)
      rw [files, if_neg outside, if_neg Nat.zero_ne_one, if_pos rfl]
      exact fileAt_wireFd opened 0 named
    · intro file named
      have outside : 1 ∉ pipeFds opened := fun inside =>
        openOut (by simp [Option.mem_def.mp named]) (stdout.mp inside)
      rw [files, if_neg outside, if_pos rfl]
      exact fileAt_wireFd opened 1 named
    · intro fd file found isPipe
      rw [files] at found
      split at found
      · contradiction
      rename_i outside
      split at found
      · rename_i here
        subst here
        exact .inr ⟨rfl, file_eq_of_wireFd opened outside found isPipe⟩
      split at found
      · rename_i here
        subst here
        exact .inl ⟨rfl, file_eq_of_wireFd opened outside found isPipe⟩
      · exact absurd (mem_pipeFds_of_isPipe opened found isPipe) outside

end Exec

/-! ## The pipeline -/

/-- What the children of the pipeline should find behind their standard descriptors. -/
def childEnds : Nat → Option File × Option File
  | 0 => (none, some (.writeEnd .first))
  | 1 => (some (.readEnd .first), some (.writeEnd .second))
  | _ => (some (.readEnd .second), none)

/-- The child that writes to a pipe. -/
def upstream : Pipe → Nat
  | .first => 0
  | .second => 1

/-- The dispatcher is past `close_pipe_fds`. -/
def Pc.PastClose : Pc → Prop
  | .pipe1 | .pipe2 | .spawn _ | .closePipes | .cleanup _ => False
  | _ => True

/-- A descriptor for the write end of a pipe is open in the dispatcher or in a child. -/
def World.Writable (world : World) (pipe : Pipe) : Prop :=
  (∃ fd, fileAt world.table fd = some (.writeEnd pipe)) ∨
    ∃ index process fd, world.childAt index = some (.alive process) ∧ ¬process.Ended ∧
      fileAt process.table fd = some (.writeEnd pipe)

/-- The pipeline is plumbed right from these descriptors, whatever the interleaving. -/
structure Plumbed (opened : List (Option Nat)) : Prop where
  /-- Every child finds its ends at its `execv`, and no others. -/
  children : ∀ events world,
    Runs.run World.step (.start pipelineWirings opened) events = some world →
      ∀ index process, world.childAt index = some (.alive process) → process.AtExec →
        RightEnds process.table (childEnds index).1 (childEnds index).2
  /-- The dispatcher holds none behind `close_pipe_fds`. -/
  dispatcher : ∀ events world,
    Runs.run World.step (.start pipelineWirings opened) events = some world →
      world.pc.PastClose → NoPipes world.table
  /-- Once all applets are started, a pipe is at its end when the child upstream has ended. -/
  endOfFile : ∀ events world,
    Runs.run World.step (.start pipelineWirings opened) events = some world →
      world.pc.PastClose →
      (∀ index process, world.childAt index = some (.alive process) →
        process.AtExec ∨ process.Ended) →
      ∀ pipe, (∀ process, world.childAt (upstream pipe) = some (.alive process) →
        process.Ended) → ¬world.Writable pipe

/-- The wirings of the pipeline name these ends, and no child writes to a read end. -/
private theorem pipelineWirings_ends {index : Nat} {wiring : Wiring}
    (listed : pipelineWirings[index]? = some wiring) :
    (wiring.stdin.file, wiring.stdout.file) = childEnds index ∧
      ∀ pipe, wiring.stdout ≠ .readEnd pipe := by
  match index with
  | 0 | 1 | 2 =>
    obtain rfl := Option.some.inj listed
    refine ⟨rfl, ?_⟩
    intro pipe reads
    contradiction
  | index + 3 => contradiction

/-- A child that finds its ends holds the write end of its own output alone. -/
private theorem RightEnds.upstream {table : Table File} {index fd : Nat} {pipe : Pipe}
    (right : RightEnds table (childEnds index).1 (childEnds index).2)
    (holds : fileAt table fd = some (.writeEnd pipe)) : index = upstream pipe := by
  have own := right.nothingElse fd (.writeEnd pipe) holds trivial
  match index with
  | 0 | 1 =>
    rcases own with ⟨-, reads⟩ | ⟨-, writes⟩
    · simp [childEnds] at reads
    · cases writes
      rfl
  | index + 2 => simp [childEnds] at own

/-- The world of a run is wired. -/
theorem wired_of_run {wirings : List Wiring} {opened : List (Option Nat)} {events : List Event}
    {world : World} (ran : Runs.run World.step (.start wirings opened) events = some world) :
    world.Wired opened wirings :=
  Runs.stable (fun _ _ _ wired stepped => World.Wired.step wired stepped)
    (World.wired_start wirings opened) ran

/-- A child of the pipeline finds its ends exactly when the standard descriptors they go to were
open at the start. -/
theorem rightEnds_iff_opened {opened : List (Option Nat)} {events : List Event} {world : World}
    (ran : Runs.run World.step (.start pipelineWirings opened) events = some world)
    {index : Nat} {process : Process} (found : world.childAt index = some (.alive process))
    (exec : process.AtExec) :
    RightEnds process.table (childEnds index).1 (childEnds index).2 ↔
      ((childEnds index).1 ≠ none → fileAt (startTable opened) 0 ≠ none) ∧
        ((childEnds index).2 ≠ none → fileAt (startTable opened) 1 ≠ none) := by
  have wired := wired_of_run ran
  obtain ⟨slot, entry, -⟩ := Option.map_eq_some_iff.mp found
  have listed : pipelineWirings[index]? = some slot.wiring := by
    rw [← wired.entries, List.getElem?_map, entry, Option.map_some]
  obtain ⟨ends, writes⟩ := pipelineWirings_ends listed
  rw [← ends]
  exact (wired.children index slot.wiring process listed found).rightEnds_iff exec writes

/-- The dispatcher holds no pipe past `close_pipe_fds`. -/
theorem noPipes_of_pastClose {wirings : List Wiring} {opened : List (Option Nat)}
    {events : List Event} {world : World}
    (ran : Runs.run World.step (.start wirings opened) events = some world)
    (past : world.pc.PastClose) : NoPipes world.table := by
  have holds := (wired_of_run ran).dispatcher
  cases here : world.pc with
  | pipe1 | pipe2 | spawn | closePipes | cleanup =>
    rw [here] at past
    exact past.elim
  | _ =>
    rw [World.Holds, here] at holds
    exact holds.table

/-! ## Children reach `execv` -/

/-- Steps of a process in `pd_spawn_child`. -/
def Process.Reaches : Process → Process → Prop :=
  Relation.ReflTransGen fun process next => process.advance = some next

/-- A redirection of an open descriptor succeeds. -/
theorem exists_redirect {table : Table File} {fd target : Nat}
    (usable : fd = target ∨ fileAt table fd ≠ none) :
    ∃ next, redirect table (some fd) target = some next := by
  unfold redirect
  by_cases same : fd = target
  · exact ⟨table, if_pos (congrArg some same)⟩
  · obtain ⟨file, found⟩ := Option.ne_none_iff_exists'.mp (usable.resolve_left same)
    refine ⟨put table target (some file), ?_⟩
    rw [if_neg (by simpa using same), Option.bind_some, dup2, found, Option.map_some]

/-- The loop over `close_fds` ends at `execv`. -/
theorem reaches_execv {rest : List (Option Nat)} {process : Process}
    (here : process.phase = .closing rest) : ∃ last, process.Reaches last ∧ last.AtExec := by
  induction rest generalizing process with
  | nil =>
    refine ⟨{ process with phase := .execv }, .single ?_, .inl rfl⟩
    simp [Process.advance, here]
  | cons fd rest ih =>
    let next : Process := { process with
      table := closeFd process.table fd
      phase := .closing rest }
    obtain ⟨last, later, exec⟩ := ih (show next.phase = .closing rest from rfl)
    refine ⟨last, .head ?_ later, exec⟩
    simp [Process.advance, here, next]

/-- A forked child of a wiring without a standard descriptor reaches `execv`. -/
theorem Process.Carries.reaches {process : Process} {opened : List (Option Nat)} {wiring : Wiring}
    {input output : File} (carries : process.Carries opened wiring)
    (here : process.phase = .dupStdin) (reads : wiring.stdin.file = some input)
    (prints : wiring.stdout.file = some output) (writes : ∀ pipe, wiring.stdout ≠ .readEnd pipe) :
    ∃ last, process.Reaches last ∧ last.AtExec := by
  have base : process.table = (secondPipe opened).2 := by
    have placed := carries.placed
    rwa [Placed, here] at placed
  have source := fileAt_wireFd opened 0 reads
  have sink := fileAt_wireFd opened 1 prints
  -- Standard input first; the end for standard output is still there.
  obtain ⟨first, made⟩ : ∃ first, redirect process.table process.stdinFd 0 = some first := by
    rw [carries.stdin, base]
    exact exists_redirect (.inr (by simp [source]))
  have kept : fileAt first (wireFd opened 1 wiring.stdout) = some output := by
    rw [fileAt_redirect made, if_neg (wireFd_stdout_ne_zero opened writes), base, sink]
  obtain ⟨second, moved⟩ : ∃ second, redirect first process.stdoutFd 1 = some second := by
    rw [carries.stdout]
    exact exists_redirect (.inr (by simp [kept]))
  let middle : Process := { process with table := first, phase := .dupStdout }
  let next : Process := { process with table := second, phase := .closing process.closeFds }
  obtain ⟨last, later, exec⟩ := reaches_execv (show next.phase = .closing process.closeFds from rfl)
  refine ⟨last, .head (b := middle) ?_ (.head (b := next) ?_ later), exec⟩
  · simp [advance, here, made, middle]
  · simp [advance, middle, moved, next]

/-- The steps of a process are steps of the world. -/
theorem exists_run_of_reaches {index : Nat} {process last : Process}
    (reaches : process.Reaches last) : ∀ {world : World},
      world.childAt index = some (.alive process) →
        ∃ events after, Runs.run World.step world events = some after ∧
          after.childAt index = some (.alive last) := by
  induction reaches using Relation.ReflTransGen.head_induction_on with
  | refl => exact fun found => ⟨[], _, rfl, found⟩
  | @head _ middle moved _ ih =>
    intro world found
    have stepped : world.step (.child index) = some (world.setChild index (.alive middle)) := by
      simp [World.step, World.stepProcess, found, moved]
    obtain ⟨events, after, ran, there⟩ := ih (world.childAt_setChild_self found (.alive middle))
    exact ⟨.child index :: events, after, by rw [Runs.run, stepped]; exact ran, there⟩

/-- From any descriptors, `log_parse` reaches its `execv` in some run. -/
theorem exists_run_logParse (opened : List (Option Nat)) : ∃ events world process,
    Runs.run World.step (.start pipelineWirings opened) events = some world ∧
      world.childAt 1 = some (.alive process) ∧ process.AtExec := by
  let spawns : List Event := [.dispatcher, .dispatcher, .fork 1, .fork 2]
  obtain ⟨world, process, ran, found, here⟩ : ∃ world process,
      Runs.run World.step (.start pipelineWirings opened) spawns = some world ∧
        world.childAt 1 = some (.alive process) ∧ process.phase = .dupStdin :=
    ⟨_, _, rfl, rfl, rfl⟩
  have carries := (wired_of_run ran).children 1 _ process rfl found
  have writes (pipe : Pipe) : Wire.writeEnd .second ≠ .readEnd pipe := by
    intro reads
    contradiction
  obtain ⟨last, reaches, exec⟩ := carries.reaches here rfl rfl writes
  obtain ⟨events, after, later, there⟩ := exists_run_of_reaches reaches found
  exact ⟨spawns ++ events, after, last, (Runs.run_append ran events).trans later, there, exec⟩

/-- For every set of descriptors the dispatcher is started with, the pipeline is plumbed right in
every interleaving of its steps if and only if descriptors 0 and 1 are open. -/
theorem plumbed_iff_opened (opened : List (Option Nat)) :
    Plumbed opened ↔
      fileAt (startTable opened) 0 ≠ none ∧ fileAt (startTable opened) 1 ≠ none := by
  constructor
  · intro plumbed
    obtain ⟨events, world, process, ran, found, exec⟩ := exists_run_logParse opened
    have right := plumbed.children events world ran 1 process found exec
    obtain ⟨stdin, stdout⟩ := (rightEnds_iff_opened ran found exec).mp right
    exact ⟨stdin (by decide), stdout (by decide)⟩
  · rintro ⟨stdin, stdout⟩
    have right {events world} (ran : Runs.run World.step (.start pipelineWirings opened) events =
        some world) {index : Nat} {process : Process}
        (found : world.childAt index = some (.alive process)) (exec : process.AtExec) :
        RightEnds process.table (childEnds index).1 (childEnds index).2 :=
      (rightEnds_iff_opened ran found exec).mpr ⟨fun _ => stdin, fun _ => stdout⟩
    constructor
    · exact fun events world ran index process found exec => right ran found exec
    · exact fun events world ran past => noPipes_of_pastClose ran past
    · intro events world ran past started pipe gone writable
      rcases writable with ⟨fd, held⟩ | ⟨index, process, fd, found, going, held⟩
      · exact noPipes_of_pastClose ran past fd _ held trivial
      · have exec := (started index process found).resolve_right going
        have own := (right ran found exec).upstream held
        rw [own] at found
        exact going (gone process found)

/-- Started with standard input closed. -/
def closedStdin : List (Option Nat) := [none, some 1, some 2]

/-- The steps to the `execv` of `log_parse`. -/
def toLogParse : List Event :=
  [.dispatcher, .dispatcher, .fork 1, .fork 2, .child 1, .child 1, .child 1, .child 1, .child 1,
    .child 1, .child 1]

/-- Then `log_parse` closes its standard input again before `execv`. -/
theorem closed_stdin_unplumbed : ¬Plumbed closedStdin := by
  intro plumbed
  obtain ⟨world, process, ran, found, exec, lost⟩ : ∃ world process,
      Runs.run World.step (.start pipelineWirings closedStdin) toLogParse = some world ∧
        world.childAt 1 = some (.alive process) ∧ process.AtExec ∧
        fileAt process.table 0 = none :=
    ⟨_, _, rfl, rfl, .inl rfl, rfl⟩
  have right := plumbed.children _ world ran 1 process found exec
  have reads := right.atStdin (.readEnd .first) rfl
  rw [lost] at reads
  contradiction

end StreamPipeline.Dispatch
