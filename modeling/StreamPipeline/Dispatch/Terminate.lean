import StreamPipeline.Dispatch.Rules

/-!
# The end of a terminated child

A forked child keeps the handler of the dispatcher until `execv`, so a `SIGTERM` of
`pd_kill_children` that is delivered before only sets a flag nobody reads. The child then starts
its applet, and the dispatcher waits for it. A `SIGTERM` delivered behind `execv` ends the child.
-/

namespace StreamPipeline.Dispatch

/-- A `SIGTERM` of `pd_kill_children` was delivered to the process. -/
def Process.Delivered (process : Process) : Prop :=
  process.termSent = true ∧ process.termPending = false

/-- The process of an entry that was not waited for. -/
def Child.process : Child → Option Process
  | .alive process => some process
  | _ => none

namespace World

variable {world next : World}

/-- The dispatcher waits in `pd_kill_children` for a child that runs its applet although its
`SIGTERM` was delivered. -/
def Stuck (world : World) : Prop :=
  ∃ index rc process, world.pc = .reap index rc ∧
    world.childAt index = some (.alive process) ∧ process.Delivered ∧ process.phase = .running

/-- A `SIGTERM` is delivered only to a child that has performed `execv`. -/
def TermAfterExec (world : World) : Event → Prop
  | .term index => ∀ process ∈ (world.childAt index).bind Child.process, process.phase = .running
  | _ => True

instance (world : World) : (event : Event) → Decidable (world.TermAfterExec event)
  | .term _ => Option.decidableForallMem _
  | .dispatcher | .fork _ | .fails | .signal | .child _ | .exits _ _ => .isTrue trivial

/-- Every child whose `SIGTERM` was delivered has ended. -/
def Obeyed (world : World) : Prop :=
  ∀ index process, world.childAt index = some (.alive process) → process.Delivered → process.Ended

/-- A replaced entry keeps the rule when its process does. -/
theorem Obeyed.set (obeyed : world.Obeyed) {index : Nat} {child : Child}
    (same : ∀ place, next.childAt place = (world.setChild index child).childAt place)
    (here : ∀ process, child = .alive process → process.Delivered → process.Ended) :
    next.Obeyed := by
  intro place process found delivered
  rw [same, childAt_setChild] at found
  split at found
  · obtain ⟨_, -, alive⟩ := Option.map_eq_some_iff.mp found
    exact here process alive delivered
  · exact obeyed place process found delivered

/-- A step of a process keeps the rule when a `SIGTERM` only comes behind `execv`. -/
private theorem process_obeyed {index : Nat} {process after : Process} {event : Event}
    (obeyed : process.Delivered → process.Ended) (moved : ProcessRule index process event after)
    (running : event = .term index → process.phase = .running) (delivered : after.Delivered) :
    after.Ended := by
  cases moved with
  | advance moved =>
    obtain ⟨going, sent, pending⟩ := Process.advance_term moved
    have ended := obeyed ⟨sent.symm.trans delivered.1, pending.symm.trans delivered.2⟩
    exact absurd ended going
  | exit moved =>
    rw [Process.exit_eq moved]
    exact ⟨_, rfl⟩
  | term moved =>
    rcases Process.deliverTerm_cases moved with ⟨-, same⟩ | ⟨early, -⟩
    · rw [same]
      exact ⟨_, rfl⟩
    · exact absurd (running rfl) early

/-- Every step under the condition keeps the rule. -/
theorem Obeyed.step {event : Event} (obeyed : world.Obeyed) (late : world.TermAfterExec event)
    (stepped : world.step event = some next) : next.Obeyed := by
  have rule := step_rule stepped
  cases rule with
  | reapWait | reapKill =>
    apply obeyed.set fun _ => rfl
    intro process alive
    contradiction
  | sendTerm =>
    apply obeyed.set fun _ => rfl
    rintro _ ⟨⟩ ⟨-, pending⟩
    contradiction
  | fork =>
    apply obeyed.set fun _ => rfl
    rintro _ ⟨⟩ ⟨sent, -⟩
    contradiction
  | @process index process after event found moved =>
    apply obeyed.set fun _ => rfl
    rintro _ ⟨⟩ delivered
    refine process_obeyed (obeyed index process found) moved ?_ delivered
    rintro rfl
    exact late process (by rw [found]; rfl)
  | _ => exact obeyed

end World

/-- For every array of children, every initial set of descriptors and every interleaving in which
each `SIGTERM` of `pd_kill_children` is delivered to a child that has performed `execv`: in no
world reached does the dispatcher wait for a child that runs although its `SIGTERM` was
delivered. -/
theorem not_stuck_of_termAfterExec (wirings : List Wiring) (opened : List (Option Nat))
    (events : List Event)
    (late : Runs.Along World.step World.TermAfterExec (.start wirings opened) events)
    (before after : List Event) (split : events = before ++ after) (world : World)
    (reached : Runs.run World.step (.start wirings opened) before = some world) :
    ¬world.Stuck := by
  have begins : (World.start wirings opened).Obeyed := by
    intro index process found
    simp only [World.start, World.childAt, List.getElem?_map, Option.map_map] at found
    obtain ⟨wiring, -, impossible⟩ := Option.map_eq_some_iff.mp found
    cases impossible
  rw [split] at late
  have obeyed := Runs.invariant (fun _ _ _ holds met stepped => World.Obeyed.step holds met stepped)
    begins late.front reached
  rintro ⟨index, rc, process, -, found, delivered, running⟩
  obtain ⟨status, ended⟩ := obeyed index process found delivered
  rw [running] at ended
  contradiction

/-- Two pipes and the first child. -/
def firstChild : List Event := [.dispatcher, .dispatcher, .fork 11]

/-- The steps of that child to its applet. -/
def toApplet : List Event := List.replicate 8 (.child 0)

/-- The second `fork` fails, and the clean-up sends `SIGTERM` to the first child. -/
def forkFailure : List Event :=
  [.fails, .dispatcher, .dispatcher, .dispatcher, .dispatcher, .dispatcher, .term 0]

/-- The clean-up finds the first child behind its `execv`. -/
def lateTermRun : List Event := firstChild ++ toApplet ++ forkFailure

/-- Where it ends. -/
def lateTermEnd : World :=
  (Runs.run World.step (.start pipelineWirings [some 0, some 1, some 2]) lateTermRun).getD
    (.start pipelineWirings [])

/-- The killed child has ended there. -/
theorem not_stuck_lateTerm : ¬lateTermEnd.Stuck :=
  not_stuck_of_termAfterExec pipelineWirings [some 0, some 1, some 2] lateTermRun
    (by decide +kernel) lateTermRun [] (List.append_nil lateTermRun).symm lateTermEnd
    (Runs.run_eq_getD (by decide +kernel) _)

/-- The clean-up finds it between `fork` and the first `dup2`. -/
def earlyTermRun : List Event := firstChild ++ forkFailure ++ toApplet

/-- Where it ends. -/
def earlyTermEnd : World :=
  (Runs.run World.step (.start pipelineWirings [some 0, some 1, some 2]) earlyTermRun).getD
    (.start pipelineWirings [])

/-- The child starts its applet behind the `SIGTERM`, and the dispatcher waits for it. -/
theorem early_term_stuck :
    Runs.run World.step (.start pipelineWirings [some 0, some 1, some 2]) earlyTermRun =
      some earlyTermEnd ∧ earlyTermEnd.Stuck := by
  constructor
  · exact Runs.run_eq_getD (by decide +kernel) _
  · exact ⟨0, .setupError, _, rfl, rfl, ⟨rfl, rfl⟩, rfl⟩

end StreamPipeline.Dispatch
