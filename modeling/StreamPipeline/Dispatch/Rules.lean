import StreamPipeline.Dispatch.World

/-!
# What one event does

`Rule` lists every way an event changes the dispatcher and its children, each with its guard. The
invariants of runs are proved from it.
-/

namespace StreamPipeline.Dispatch

open Descriptors

namespace World

variable (world : World)

/-! ## Entries -/

/-- The entry of a slot. -/
theorem childAt_of_slot {world : World} {index : Nat} {slot : Slot}
    (found : world.slots[index]? = some slot) : world.childAt index = some slot.child := by
  rw [childAt, found, Option.map_some]

/-- A replaced entry is the only one that changes. -/
theorem childAt_setChild (index : Nat) (child : Child) (other : Nat) :
    (world.setChild index child).childAt other =
      if other = index then (world.childAt index).map fun _ => child else world.childAt other := by
  rw [childAt, setChild, List.getElem?_modify]
  by_cases same : other = index
  · subst same
    simp [childAt, Function.comp_def]
  · simp [childAt, same, Ne.symm same]

/-- The replaced entry. -/
theorem childAt_setChild_self {index : Nat} {old : Child} (found : world.childAt index = some old)
    (child : Child) : (world.setChild index child).childAt index = some child := by
  rw [childAt_setChild, if_pos rfl, found, Option.map_some]

/-- The other entries. -/
theorem childAt_setChild_ne {index other : Nat} (apart : other ≠ index) (child : Child) :
    (world.setChild index child).childAt other = world.childAt other := by
  rw [childAt_setChild, if_neg apart]

/-- Going to another place leaves the entries alone. -/
@[simp]
theorem childAt_goto (pc : Pc) (index : Nat) : (world.goto pc).childAt index = world.childAt index :=
  rfl

end World

/-- The steps of a process that the dispatcher does not take, by event. -/
inductive ProcessRule (index : Nat) (process : Process) : Event → Process → Prop where
  /-- On the way to `execv`. -/
  | advance {next : Process} (moved : process.advance = some next) :
      ProcessRule index process (.child index) next
  /-- At its end. -/
  | exit {status : Status} {next : Process} (moved : process.exit status = some next) :
      ProcessRule index process (.exits index status) next
  /-- A pending `SIGTERM`. -/
  | term {next : Process} (moved : process.deliverTerm = some next) :
      ProcessRule index process (.term index) next

/-- The process has ended. -/
def Process.Ended (process : Process) : Prop := ∃ status, process.phase = .ended status

/-- A step to `execv` is none of an ended process, and leaves the record of `SIGTERM` alone. -/
theorem Process.advance_term {process next : Process} (moved : process.advance = some next) :
    ¬process.Ended ∧ next.termSent = process.termSent ∧
      next.termPending = process.termPending := by
  constructor
  · rintro ⟨status, ended⟩
    simp [advance, ended] at moved
  · unfold advance at moved
    split at moved
    · obtain ⟨table, -, rfl⟩ := Option.map_eq_some_iff.mp moved
      exact ⟨rfl, rfl⟩
    · obtain ⟨table, -, rfl⟩ := Option.map_eq_some_iff.mp moved
      exact ⟨rfl, rfl⟩
    · rw [← Option.some.inj moved]
      exact ⟨rfl, rfl⟩
    · rw [← Option.some.inj moved]
      exact ⟨rfl, rfl⟩
    · rw [← Option.some.inj moved]
      exact ⟨rfl, rfl⟩
    · contradiction
    · contradiction

/-- The end of a process changes nothing else. -/
theorem Process.exit_eq {process next : Process} {status : Status}
    (moved : process.exit status = some next) : next = { process with phase := .ended status } := by
  unfold exit at moved
  split at moved
  · contradiction
  · exact (Option.some.inj moved).symm

/-- A delivered `SIGTERM` ends a running applet, and nothing else. -/
theorem Process.deliverTerm_cases {process next : Process}
    (moved : process.deliverTerm = some next) :
    (process.phase = .running ∧ next =
      { process with termPending := false, phase := .ended (.signaled sigterm) }) ∨
    (process.phase ≠ .running ∧ next = { process with termPending := false }) := by
  unfold deliverTerm at moved
  split at moved
  · split at moved
    · contradiction
    · rename_i running
      exact .inl ⟨running, (Option.some.inj moved).symm⟩
    · rename_i early
      exact .inr ⟨early, (Option.some.inj moved).symm⟩
  · contradiction

/-- An entry without a process to wait for. -/
def Child.Idle (child : Child) : Prop := ∀ process, child ≠ .alive process

/-- Every way an event changes the world. -/
inductive Rule (world : World) : Event → World → Prop where
  /-- The first pipe. -/
  | pipe1 {ends : (Nat × Nat) × Table File} (here : world.pc = .pipe1)
      (made : pipe world.table (.readEnd .first) (.writeEnd .first) = ends) :
      Rule world .dispatcher
        { world with table := ends.2, pipe1 := (some ends.1.1, some ends.1.2), pc := .pipe2 }
  /-- The second pipe. -/
  | pipe2 {ends : (Nat × Nat) × Table File} (here : world.pc = .pipe2)
      (made : pipe world.table (.readEnd .second) (.writeEnd .second) = ends) :
      Rule world .dispatcher
        { world with table := ends.2, pipe2 := (some ends.1.1, some ends.1.2), pc := .spawn 0 }
  /-- All children are spawned. -/
  | allSpawned {index : Nat} (here : world.pc = .spawn index)
      (past : world.childAt index = none) : Rule world .dispatcher (world.goto .closePipes)
  /-- The dispatcher closes its ends. -/
  | closePipes (here : world.pc = .closePipes) :
      Rule world .dispatcher (world.closePipeFds.goto .check)
  /-- A signal was seen behind the spawns. -/
  | stop (here : world.pc = .check) (flag : world.interrupted = true) :
      Rule world .dispatcher (world.goto (.cleanup .interrupted))
  /-- No signal was seen. -/
  | supervise (here : world.pc = .check) (quiet : world.interrupted = false) :
      Rule world .dispatcher (world.goto (.wait 0 .ok))
  /-- All children were waited for. -/
  | waited {index : Nat} {rc : ExitCode} (here : world.pc = .wait index rc)
      (past : world.childAt index = none) :
      Rule world .dispatcher (world.goto (.returned rc))
  /-- There is nothing to wait for. -/
  | passWait {index : Nat} {rc : ExitCode} {child : Child} (here : world.pc = .wait index rc)
      (found : world.childAt index = some child) (idle : child.Idle) :
      Rule world .dispatcher (world.goto (.wait (index + 1) rc))
  /-- `pd_wait_children` gets the status of a child. -/
  | reapWait {index : Nat} {rc : ExitCode} {process : Process} {status : Status}
      (here : world.pc = .wait index rc ∨ world.pc = .blocked index rc)
      (found : world.childAt index = some (.alive process))
      (ended : process.phase = .ended status) :
      Rule world .dispatcher
        ((world.setChild index (.reaped process status)).goto
          (.wait (index + 1) (rc.after status)))
  /-- `waitpid` blocks. -/
  | block {index : Nat} {rc : ExitCode} {process : Process} (here : world.pc = .wait index rc)
      (found : world.childAt index = some (.alive process))
      (going : (Child.alive process).waitStatus = none) :
      Rule world .dispatcher (world.goto (.blocked index rc))
  /-- `waitpid` was interrupted by a signal. -/
  | giveUp {index : Nat} {rc : ExitCode} (here : world.pc = .eintr index rc)
      (flag : world.interrupted = true) :
      Rule world .dispatcher (world.goto (.kill 0 .interrupted))
  /-- `waitpid` failed for another reason. -/
  | ignore {index : Nat} {rc : ExitCode} (here : world.pc = .eintr index rc)
      (quiet : world.interrupted = false) :
      Rule world .dispatcher (world.goto (.wait (index + 1) .childError))
  /-- The clean-up. -/
  | cleanup {rc : ExitCode} (here : world.pc = .cleanup rc) :
      Rule world .dispatcher (world.closePipeFds.goto (.kill 0 rc))
  /-- All children were sent `SIGTERM`. -/
  | killed {index : Nat} {rc : ExitCode} (here : world.pc = .kill index rc)
      (past : world.childAt index = none) :
      Rule world .dispatcher (world.goto (.reap 0 rc))
  /-- A child is sent `SIGTERM`. -/
  | sendTerm {index : Nat} {rc : ExitCode} {process : Process} (here : world.pc = .kill index rc)
      (found : world.childAt index = some (.alive process)) :
      Rule world .dispatcher
        ((world.setChild index (.alive process.kill)).goto (.kill (index + 1) rc))
  /-- There is nothing to send it to. -/
  | passKill {index : Nat} {rc : ExitCode} {child : Child} (here : world.pc = .kill index rc)
      (found : world.childAt index = some child) (idle : child.Idle) :
      Rule world .dispatcher (world.goto (.kill (index + 1) rc))
  /-- All killed children were waited for. -/
  | finished {index : Nat} {rc : ExitCode} (here : world.pc = .reap index rc)
      (past : world.childAt index = none) :
      Rule world .dispatcher (world.goto (.returned rc))
  /-- `pd_kill_children` gets the status of a child. -/
  | reapKill {index : Nat} {rc : ExitCode} {process : Process} {status : Status}
      (here : world.pc = .reap index rc) (found : world.childAt index = some (.alive process))
      (ended : process.phase = .ended status) :
      Rule world .dispatcher
        ((world.setChild index (.reaped process status)).goto (.reap (index + 1) rc))
  /-- There is nothing to wait for. -/
  | passReap {index : Nat} {rc : ExitCode} {child : Child} (here : world.pc = .reap index rc)
      (found : world.childAt index = some child) (idle : child.Idle) :
      Rule world .dispatcher (world.goto (.reap (index + 1) rc))
  /-- A child is forked. -/
  | fork {index pid : Nat} {slot : Slot} (positive : 0 < pid) (here : world.pc = .spawn index)
      (found : world.slots[index]? = some slot) :
      Rule world (.fork pid)
        ((world.setChild index (.alive (world.spawned slot.wiring pid positive))).goto
          (.spawn (index + 1)))
  /-- The first pipe fails. -/
  | pipe1Fails (here : world.pc = .pipe1) :
      Rule world .fails (world.goto (.returned .setupError))
  /-- The second pipe fails. -/
  | pipe2Fails (here : world.pc = .pipe2) :
      Rule world .fails (world.closePipeFds.goto (.returned .setupError))
  /-- A fork fails. -/
  | forkFails {index : Nat} {slot : Slot} (here : world.pc = .spawn index)
      (found : world.slots[index]? = some slot) :
      Rule world .fails (world.goto (.cleanup .setupError))
  /-- A signal sets the flag. -/
  | signal (awake : ∀ index rc, world.pc = .blocked index rc →
        ((world.childAt index).bind Child.waitStatus).isSome = true) :
      Rule world .signal { world with interrupted := true }
  /-- A signal interrupts a blocking `waitpid`. -/
  | interrupt {index : Nat} {rc : ExitCode} (here : world.pc = .blocked index rc)
      (going : (world.childAt index).bind Child.waitStatus = none) :
      Rule world .signal { world with interrupted := true, pc := .eintr index rc }
  /-- A process moves. -/
  | process {index : Nat} {process next : Process} {event : Event}
      (found : world.childAt index = some (.alive process))
      (moved : ProcessRule index process event next) :
      Rule world event (world.setChild index (.alive next))

/-- A status comes from an ended process. -/
theorem Child.waitStatus_some {child : Child} {status : Status}
    (waited : child.waitStatus = some status) :
    ∃ process, child = .alive process ∧ process.phase = .ended status := by
  unfold waitStatus at waited
  split at waited
  · rename_i process
    split at waited
    · rename_i found phase
      exact ⟨process, rfl, phase.trans (congrArg Phase.ended (Option.some.inj waited))⟩
    · contradiction
  · contradiction

/-- An entry has a process to wait for exactly when its `pid` is positive. -/
theorem Child.idle_iff_pid (child : Child) : child.Idle ↔ child.pid ≤ 0 := by
  cases child with
  | absent => simp [Child.Idle, Child.pid]
  | alive process =>
    have positive := process.positive
    simp only [Child.Idle, Child.pid, ne_eq, Child.alive.injEq]
    constructor
    · intro idle
      exact absurd rfl (idle process)
    · intro low
      omega
  | reaped => simp [Child.Idle, Child.pid]

/-- A step of a process follows its rule. -/
private theorem stepProcess_rule {world next : World} {index : Nat} {event : Event}
    {move : Process → Option Process} (stepped : world.stepProcess index move = some next)
    (rule : ∀ process after, move process = some after → ProcessRule index process event after) :
    Rule world event next := by
  unfold World.stepProcess at stepped
  split at stepped
  · rename_i process found
    obtain ⟨after, moved, rfl⟩ := Option.map_eq_some_iff.mp stepped
    exact .process found (rule process after moved)
  · contradiction

/-- `waitpid` in `pd_wait_children` for a process follows a rule. -/
private theorem waitFor_rule {world : World} {index : Nat} {rc : ExitCode} {process : Process}
    (found : world.childAt index = some (.alive process))
    (here : world.pc = .wait index rc ∨ world.pc = .blocked index rc)
    (going : (Child.alive process).waitStatus = none → world.pc = .wait index rc) :
    Rule world .dispatcher (world.waitFor index rc (.alive process)) := by
  unfold World.waitFor
  split
  · rename_i status waited
    obtain ⟨other, same, ended⟩ := Child.waitStatus_some waited
    rw [← Child.alive.inj same] at ended
    exact .reapWait here found ended
  · rename_i waited
    exact .block (going waited) found waited

/-- A step of the dispatcher follows a rule. -/
private theorem advance_rule {world next : World} (stepped : world.advance = some next) :
    Rule world .dispatcher next := by
  cases here : world.pc with
  | returned => simp [World.advance, here] at stepped
  | pipe1 =>
    simp only [World.advance, here, Option.some.injEq] at stepped
    subst stepped
    exact .pipe1 here rfl
  | pipe2 =>
    simp only [World.advance, here, Option.some.injEq] at stepped
    subst stepped
    exact .pipe2 here rfl
  | closePipes =>
    simp only [World.advance, here, Option.some.injEq] at stepped
    subst stepped
    exact .closePipes here
  | cleanup rc =>
    simp only [World.advance, here, Option.some.injEq] at stepped
    subst stepped
    exact .cleanup here
  | check =>
    simp only [World.advance, here, Option.some.injEq] at stepped
    rw [← stepped]
    by_cases flag : world.interrupted = true
    · rw [if_pos flag]
      exact .stop here flag
    · rw [if_neg flag]
      exact .supervise here (Bool.eq_false_iff.mpr flag)
  | eintr index rc =>
    simp only [World.advance, here, Option.some.injEq] at stepped
    rw [← stepped]
    by_cases flag : world.interrupted = true
    · rw [if_pos flag]
      exact .giveUp here flag
    · rw [if_neg flag]
      exact .ignore here (Bool.eq_false_iff.mpr flag)
  | spawn index =>
    simp only [World.advance, here] at stepped
    split at stepped
    · rename_i past
      rw [← Option.some.inj stepped]
      exact .allSpawned here past
    · contradiction
  | wait index rc =>
    simp only [World.advance, here] at stepped
    split at stepped
    · rename_i past
      rw [← Option.some.inj stepped]
      exact .waited here past
    · rename_i child found
      split at stepped
      · rename_i low
        rw [← Option.some.inj stepped]
        exact .passWait here found (child.idle_iff_pid.mpr low)
      · rename_i positive
        cases child with
        | alive process =>
          rw [← Option.some.inj stepped]
          exact waitFor_rule found (.inl here) fun _ => here
        | absent => simp [Child.pid] at positive
        | reaped => simp [Child.pid] at positive
  | blocked index rc =>
    simp only [World.advance, here] at stepped
    split at stepped
    · contradiction
    · rename_i child found
      split at stepped
      · rename_i status waited
        obtain ⟨process, rfl, -⟩ := Child.waitStatus_some waited
        rw [← Option.some.inj stepped]
        refine waitFor_rule found (.inr here) fun going => ?_
        rw [waited] at going
        contradiction
      · contradiction
  | kill index rc =>
    simp only [World.advance, here] at stepped
    split at stepped
    · rename_i past
      rw [← Option.some.inj stepped]
      exact .killed here past
    · rename_i process found
      rw [← Option.some.inj stepped]
      exact .sendTerm here found
    · rename_i child idle found
      rw [← Option.some.inj stepped]
      exact .passKill here found idle
  | reap index rc =>
    simp only [World.advance, here] at stepped
    split at stepped
    · rename_i past
      rw [← Option.some.inj stepped]
      exact .finished here past
    · rename_i process found
      split at stepped
      · rename_i status waited
        obtain ⟨other, same, ended⟩ := Child.waitStatus_some waited
        rw [← Child.alive.inj same] at ended
        rw [← Option.some.inj stepped]
        exact .reapKill here found ended
      · contradiction
    · rename_i child idle found
      rw [← Option.some.inj stepped]
      exact .passReap here found idle

/-- A `fork` follows its rule. -/
private theorem fork_rule {world next : World} {pid : Nat} (stepped : world.fork pid = some next) :
    Rule world (.fork pid) next := by
  unfold World.fork at stepped
  split at stepped
  · rename_i index here
    split at stepped
    · contradiction
    · rename_i slot found
      split at stepped
      · rename_i positive
        rw [← Option.some.inj stepped]
        exact .fork positive here found
      · contradiction
  · contradiction

/-- A failing system call follows its rule. -/
private theorem fail_rule {world next : World} (stepped : world.fail = some next) :
    Rule world .fails next := by
  unfold World.fail at stepped
  split at stepped
  · rename_i here
    rw [← Option.some.inj stepped]
    exact .pipe1Fails here
  · rename_i here
    rw [← Option.some.inj stepped]
    exact .pipe2Fails here
  · rename_i index here
    split at stepped
    · contradiction
    · rename_i slot found
      rw [← Option.some.inj stepped]
      exact .forkFails here found
  · contradiction

/-- The delivery of a signal follows its rule. -/
private theorem deliver_rule (world : World) : Rule world .signal world.deliver := by
  cases here : world.pc with
  | blocked index rc =>
    by_cases awake : ((world.childAt index).bind Child.waitStatus).isSome = true
    · have same : world.deliver = { world with interrupted := true } := by
        rw [World.deliver]
        simp only [here, if_pos awake]
      rw [same]
      apply Rule.signal
      intro other code blocked
      rw [here] at blocked
      obtain ⟨rfl, -⟩ := Pc.blocked.inj blocked
      exact awake
    · have same : world.deliver =
          { world with interrupted := true, pc := .eintr index rc } := by
        rw [World.deliver]
        simp only [here, if_neg awake]
      rw [same]
      exact .interrupt here (Option.not_isSome_iff_eq_none.mp awake)
  | _ =>
    have same : world.deliver = { world with interrupted := true } := by
      rw [World.deliver]
      simp only [here]
    rw [same]
    apply Rule.signal
    intro other code blocked
    rw [here] at blocked
    contradiction

/-- Every event follows a rule. -/
theorem step_rule {world next : World} {event : Event} (stepped : world.step event = some next) :
    Rule world event next := by
  cases event with
  | dispatcher => exact advance_rule stepped
  | fork pid => exact fork_rule stepped
  | fails => exact fail_rule stepped
  | signal =>
    rw [← Option.some.inj stepped]
    exact deliver_rule world
  | child index => exact stepProcess_rule stepped fun _ _ moved => .advance moved
  | exits index status => exact stepProcess_rule stepped fun _ _ moved => .exit moved
  | term index => exact stepProcess_rule stepped fun _ _ moved => .term moved

end StreamPipeline.Dispatch
