import StreamPipeline.Dispatch.Supervise

/-!
# `pd_pipeline_run` returns

Whatever fails, whichever signals come and whenever children end, the dispatcher makes a number of
calls that is bounded by the number of its children, and all it ever waits for is the end of a
child.
-/

namespace StreamPipeline.Dispatch

/-- How far the dispatcher is from its return, in its own steps, with this many children. A signal
in `waitpid` brings it no farther. -/
def Pc.rank (count : Nat) : Pc → Nat
  | .returned _ => 0
  | .reap index _ => count - index + 1
  | .kill index _ => count - index + count + 2
  | .cleanup _ => 2 * count + 3
  | .blocked index _ | .eintr index _ => 2 * (count - index) + 2 * count + 3
  | .wait index _ => 2 * (count - index) + 2 * count + 4
  | .check => 4 * count + 5
  | .closePipes => 4 * count + 6
  | .spawn index => count - index + 4 * count + 7
  | .pipe2 => 5 * count + 8
  | .pipe1 => 5 * count + 9

/-- A step of the dispatcher. -/
def Event.isDispatcher : Event → Bool
  | .dispatcher | .fork _ | .fails => true
  | .signal | .child _ | .exits _ _ | .term _ => false

namespace World

variable {world next : World}

/-- The dispatcher's distance from its return. -/
def rank (world : World) : Nat := world.pc.rank world.slots.length

/-- A `waitpid` that blocks is for an entry. -/
def Watched (world : World) : Prop :=
  ∀ index rc, world.pc = .blocked index rc → ∃ child, world.childAt index = some child

/-- The dispatcher waits for a child that has not ended. -/
def WaitsFor (world : World) (index : Nat) : Prop :=
  (∃ process, world.childAt index = some (.alive process) ∧ ¬process.Ended) ∧
    ((∃ rc, world.pc = .blocked index rc) ∨ ∃ rc, world.pc = .reap index rc)

/-- Entries are inside the array. -/
theorem lt_of_childAt {index : Nat} {child : Child} (found : world.childAt index = some child) :
    index < world.slots.length := by
  obtain ⟨slot, entry, -⟩ := Option.map_eq_some_iff.mp found
  exact (List.getElem?_eq_some_iff.mp entry).1

/-- Without an entry the array is over. -/
theorem le_of_childAt {index : Nat} (past : world.childAt index = none) :
    world.slots.length ≤ index :=
  List.getElem?_eq_none_iff.mp (Option.map_eq_none_iff.mp past)

/-- A replaced entry leaves the array as long as it is. -/
theorem length_setChild (world : World) (index : Nat) (child : Child) :
    (world.setChild index child).slots.length = world.slots.length :=
  List.length_modify _ _ _

/-- Every step of the dispatcher brings it nearer to its return, and no other step farther. -/
theorem rank_step {event : Event} (coherent : world.Coherent)
    (stepped : world.step event = some next) :
    next.slots.length = world.slots.length ∧
      next.rank + event.isDispatcher.toNat ≤ world.rank := by
  have rule := step_rule stepped
  have dispatcher : Event.dispatcher.isDispatcher.toNat = 1 := rfl
  have fails : Event.fails.isDispatcher.toNat = 1 := rfl
  cases rule with
  | pipe1 here | pipe2 here | closePipes here | stop here | supervise here | waited here
  | cleanup here | finished here =>
    refine ⟨rfl, ?_⟩
    simp only [rank, here, goto, closePipeFds, Pc.rank, dispatcher]
    omega
  | giveUp here =>
    refine ⟨rfl, ?_⟩
    simp only [rank, here, goto, Pc.rank, dispatcher]
    omega
  | allSpawned here past | killed here past =>
    have beyond := le_of_childAt past
    refine ⟨rfl, ?_⟩
    simp only [rank, here, goto, Pc.rank, dispatcher]
    omega
  | passWait here found | block here found | passKill here found | passReap here found =>
    have inside := lt_of_childAt found
    refine ⟨rfl, ?_⟩
    simp only [rank, here, goto, Pc.rank, dispatcher]
    omega
  | @reapWait index rc process status here found ended =>
    have inside := lt_of_childAt found
    refine ⟨length_setChild world index _, ?_⟩
    rcases here with here | here
    · simp only [rank, here, goto, length_setChild, Pc.rank, dispatcher]
      omega
    · simp only [rank, here, goto, length_setChild, Pc.rank, dispatcher]
      omega
  | @sendTerm index rc process here found =>
    have inside := lt_of_childAt found
    refine ⟨length_setChild world index _, ?_⟩
    simp only [rank, here, goto, length_setChild, Pc.rank, dispatcher]
    omega
  | @reapKill index rc process status here found ended =>
    have inside := lt_of_childAt found
    refine ⟨length_setChild world index _, ?_⟩
    simp only [rank, here, goto, length_setChild, Pc.rank, dispatcher]
    omega
  | ignore here quiet =>
    have flag := coherent.flag _ _ here
    rw [quiet] at flag
    contradiction
  | @fork index pid slot positive here found =>
    have inside := lt_of_childAt (childAt_of_slot found)
    have forked : (Event.fork pid).isDispatcher.toNat = 1 := rfl
    refine ⟨length_setChild world index _, ?_⟩
    simp only [rank, here, goto, length_setChild, Pc.rank, forked]
    omega
  | pipe1Fails here | pipe2Fails here | forkFails here =>
    refine ⟨rfl, ?_⟩
    simp only [rank, here, goto, closePipeFds, Pc.rank, fails]
    omega
  | signal => exact ⟨rfl, Nat.le_refl _⟩
  | interrupt here =>
    refine ⟨rfl, Nat.le_of_eq ?_⟩
    simp only [rank, here, Pc.rank]
    rfl
  | @process index process after event found moved =>
    have other : event.isDispatcher.toNat = 0 := by cases moved <;> rfl
    refine ⟨length_setChild world index _, ?_⟩
    simp only [rank, length_setChild, other]
    exact Nat.le_refl _

/-- Every step keeps the entry of a `waitpid` that blocks. -/
theorem Watched.step {event : Event} (watched : world.Watched)
    (stepped : world.step event = some next) : next.Watched := by
  have rule := step_rule stepped
  cases rule with
  | block here found =>
    rintro place code ⟨⟩
    exact ⟨_, found⟩
  | signal => exact watched
  | @process index process after event found moved =>
    intro place code here
    obtain ⟨child, entry⟩ := watched place code here
    by_cases same : place = index
    · subst same
      exact ⟨_, world.childAt_setChild_self entry _⟩
    · exact ⟨child, (world.childAt_setChild_ne same _).trans entry⟩
  | _ =>
    intro place code here
    contradiction

/-- A child that has not ended is waited for, and one that has is reaped. -/
theorem waitsFor_or {index : Nat} {process : Process}
    (found : world.childAt index = some (.alive process))
    (here : (∃ rc, world.pc = .blocked index rc) ∨ ∃ rc, world.pc = .reap index rc) :
    world.WaitsFor index ∨ ∃ status, process.phase = .ended status := by
  by_cases ended : ∃ status, process.phase = .ended status
  · exact .inr ended
  · exact .inl ⟨⟨process, found, ended⟩, here⟩

/-- Where the dispatcher cannot go on it has returned or waits for a child that has not ended. -/
theorem Coherent.moves (coherent : world.Coherent) (watched : world.Watched) :
    (∃ rc, world.pc = .returned rc) ∨ (∃ index, world.WaitsFor index) ∨
      ∃ event next, event.isDispatcher = true ∧ world.step event = some next := by
  suffices moves : (∃ rc, world.pc = .returned rc) ∨ (∃ index, world.WaitsFor index) ∨
      (∃ next, world.advance = some next) ∨ ∃ next, world.fail = some next by
    rcases moves with returned | waits | ⟨next, moved⟩ | ⟨next, moved⟩
    · exact .inl returned
    · exact .inr (.inl waits)
    · exact .inr (.inr ⟨.dispatcher, next, rfl, moved⟩)
    · exact .inr (.inr ⟨.fails, next, rfl, moved⟩)
  cases here : world.pc with
  | returned rc => exact .inl ⟨rc, rfl⟩
  | pipe1 | pipe2 | closePipes | check | eintr | cleanup =>
    simp [advance, here]
  | spawn index =>
    cases entry : world.slots[index]? with
    | none => simp [advance, here, childAt, entry]
    | some slot => simp [fail, here, entry]
  | wait index rc =>
    cases found : world.childAt index with
    | none => simp [advance, here, found]
    | some child =>
      by_cases idle : child.pid ≤ 0
      · simp [advance, here, found, idle]
      · simp [advance, here, found, idle]
  | kill index rc =>
    cases found : world.childAt index with
    | none => simp [advance, here, found]
    | some child => cases child <;> simp [advance, here, found]
  | blocked index rc =>
    obtain ⟨child, found⟩ := watched index rc here
    have expects := coherent.children index child found
    rw [here] at expects
    obtain ⟨process, alive, -⟩ := expects.2 (Nat.le_refl index)
    rw [alive] at found
    rcases waitsFor_or found (.inl ⟨rc, here⟩) with waits | ⟨status, ended⟩
    · exact .inr (.inl ⟨index, waits⟩)
    · simp [advance, here, found, Child.waitStatus, ended]
  | reap index rc =>
    cases found : world.childAt index with
    | none => simp [advance, here, found]
    | some child =>
      cases child with
      | absent | reaped => simp [advance, here, found]
      | alive process =>
        rcases waitsFor_or found (.inr ⟨rc, here⟩) with waits | ⟨status, ended⟩
        · exact .inr (.inl ⟨index, waits⟩)
        · simp [advance, here, found, Child.waitStatus, ended]

end World

/-- For every array of children, every initial set of descriptors and every interleaving, with any
failures and any signals: the dispatcher takes at most five steps for each child and nine more,
and until it has returned it either waits for a child that has not ended or can go on. -/
theorem pipeline_run_returns (wirings : List Wiring) (opened : List (Option Nat))
    (events : List Event) (last : World)
    (ran : Runs.run World.step (.start wirings opened) events = some last) :
    events.countP Event.isDispatcher ≤ 5 * wirings.length + 9 ∧
      ((∃ rc, last.pc = .returned rc) ∨ (∃ index, last.WaitsFor index) ∨
        ∃ event next, event.isDispatcher = true ∧ last.step event = some next) := by
  constructor
  · have paid : last.rank + events.countP Event.isDispatcher ≤
        (World.start wirings opened).rank + events.countP fun _ => false :=
      Runs.countP_le
        (fun world event next (coherent : world.Coherent) stepped =>
          ⟨coherent.step stepped, (World.rank_step coherent stepped).2⟩)
        (World.coherent_start wirings opened) ran
    have far : (World.start wirings opened).rank = 5 * wirings.length + 9 := by
      simp only [World.rank, World.start, Pc.rank, List.length_map]
    rw [List.countP_false, Function.const_apply, far] at paid
    omega
  · have watched : (World.start wirings opened).Watched := by
      intro index rc here
      contradiction
    exact (coherent_of_run ran).moves
      (Runs.stable (fun _ _ _ watched stepped => World.Watched.step watched stepped) watched ran)

/-- A signal interrupts the dispatcher in `waitpid`, and it returns. -/
theorem pipeline_run_returns_interrupted :
    interruptedRun.countP Event.isDispatcher ≤ 5 * pipelineWirings.length + 9 ∧
      ((∃ rc, interruptedEnd.pc = .returned rc) ∨ (∃ index, interruptedEnd.WaitsFor index) ∨
        ∃ event next, event.isDispatcher = true ∧ interruptedEnd.step event = some next) :=
  pipeline_run_returns pipelineWirings standardFds interruptedRun interruptedEnd
    (Runs.run_eq_getD (by decide +kernel) _)

end StreamPipeline.Dispatch
