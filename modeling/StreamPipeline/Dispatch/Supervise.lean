import StreamPipeline.Dispatch.Rules

/-!
# Supervision of the children

`pd_pipeline_run` looks at the interrupt flag once behind the spawns, and `pd_wait_children`
looks at it only when `waitpid` fails with `EINTR`. A signal that falls between two looks is seen
by the next one, unless a child is reaped first: `Heeds` says that none is.
-/

namespace StreamPipeline.Dispatch

/-! ## What the dispatcher knows at each place -/

/-- A live child that was not sent `SIGTERM`. -/
def Child.Fresh (child : Child) : Prop :=
  ∃ process, child = .alive process ∧ process.termSent = false

/-- A child `pd_wait_children` has waited for with this result so far. -/
def Child.Waited (child : Child) (rc : ExitCode) : Prop :=
  ∃ process status, child = .reaped process status ∧ process.termSent = false ∧
    (rc = .ok → status = .exited 0)

/-- What an entry holds when the dispatcher is at a place. -/
def Pc.Expects : Pc → Nat → Child → Prop
  | .pipe1, _, child | .pipe2, _, child => child = .absent
  | .spawn index, place, child =>
    (place < index → child.Fresh) ∧ (index ≤ place → child = .absent)
  | .closePipes, _, child | .check, _, child => child.Fresh
  | .wait index rc, place, child | .blocked index rc, place, child
  | .eintr index rc, place, child =>
    (place < index → child.Waited rc) ∧ (index ≤ place → child.Fresh)
  | .cleanup _, _, child => child = .absent ∨ child.Fresh
  | .kill index _, place, child =>
    ∀ process, child = .alive process → place < index → process.termSent = true
  | .reap index _, place, child =>
    ∀ process, child = .alive process → index ≤ place ∧ process.termSent = true
  | .returned rc, _, child =>
    child.Idle ∧ (rc = .ok → ∀ process status, child = .reaped process status →
      status = .exited 0)

/-- The dispatcher is on its way to return this code without waiting for more children. -/
def Pc.Ending : Pc → ExitCode → Prop
  | .cleanup rc, code | .kill _ rc, code | .reap _ rc, code => rc = code
  | _, _ => False

namespace World

/-- A child is missing: its `fork` failed or was not reached. -/
def Missing (world : World) : Prop := ∃ index, world.childAt index = some .absent

/-- The entries are as expected, `EINTR` comes with the flag, and a run that ends early does so
for a signal or for a missing child. -/
structure Coherent (world : World) : Prop where
  children : ∀ index child, world.childAt index = some child → world.pc.Expects index child
  flag : ∀ index rc, world.pc = .eintr index rc → world.interrupted = true
  ending : ∀ rc, world.pc.Ending rc → rc = .interrupted ∨ (rc = .setupError ∧ world.Missing)

end World

/-- An empty entry is idle. -/
theorem Child.idle_absent : Child.absent.Idle := by
  intro process same
  contradiction

/-- The dispatcher is neither behind `EINTR` nor on its way out. -/
def Pc.Plain : Pc → Prop
  | .eintr _ _ | .cleanup _ | .kill _ _ | .reap _ _ => False
  | _ => True

/-- The code of a way out is the only one. -/
theorem Pc.Ending.unique {pc : Pc} {rc code : ExitCode} (ends : pc.Ending rc)
    (other : pc.Ending code) : rc = code := by
  cases pc with
  | cleanup | kill | reap => exact ends.symm.trans other
  | _ => exact ends.elim

namespace World

variable {world : World}

/-- At a plain place only the entries count. -/
theorem Coherent.of_plain (plain : world.pc.Plain)
    (children : ∀ index child, world.childAt index = some child →
      world.pc.Expects index child) : world.Coherent where
  children := children
  flag := by
    intro index rc here
    rw [here] at plain
    exact plain.elim
  ending := by
    intro rc ends
    cases here : world.pc with
    | cleanup | kill | reap =>
      rw [here] at plain
      exact plain.elim
    | _ =>
      rw [here] at ends
      exact ends.elim

/-- On the way out with a code there is a reason for it. -/
theorem Coherent.of_ending {code : ExitCode} (ends : world.pc.Ending code)
    (why : code = .interrupted ∨ (code = .setupError ∧ world.Missing))
    (children : ∀ index child, world.childAt index = some child →
      world.pc.Expects index child) : world.Coherent where
  children := children
  flag := by
    intro index rc here
    rw [here] at ends
    exact ends.elim
  ending := by
    intro rc other
    rw [other.unique ends]
    exact why

end World

/-- A clean result comes from a clean status. -/
theorem ExitCode.after_eq_ok {rc : ExitCode} {status : Status} (clean : rc.after status = .ok) :
    rc = .ok ∧ status = .exited 0 := by
  cases status with
  | exited code =>
    by_cases zero : code = 0
    · simp only [after, zero, ne_eq, not_true_eq_false, ↓reduceIte] at clean
      exact ⟨clean, by rw [zero]⟩
    · simp [after, zero] at clean
  | signaled signo => contradiction

/-- A step of a process leaves the record of `pd_kill_children` alone. -/
theorem ProcessRule.termSent {index : Nat} {process next : Process} {event : Event}
    (moved : ProcessRule index process event next) : next.termSent = process.termSent := by
  cases moved with
  | advance moved => exact (Process.advance_term moved).2.1
  | exit moved => rw [Process.exit_eq moved]
  | term moved =>
    rcases Process.deliverTerm_cases moved with ⟨-, same⟩ | ⟨-, same⟩
    · rw [same]
    · rw [same]

/-- An entry stays as expected while its process moves. -/
theorem Pc.Expects.move {pc : Pc} {index : Nat} {process next : Process}
    (expects : pc.Expects index (.alive process)) (same : next.termSent = process.termSent) :
    pc.Expects index (.alive next) := by
  have fresh (held : (Child.alive process).Fresh) : (Child.alive next).Fresh := by
    obtain ⟨_, ⟨⟩, unsent⟩ := held
    exact ⟨next, rfl, same.trans unsent⟩
  have waited {rc : ExitCode} (held : (Child.alive process).Waited rc) :
      (Child.alive next).Waited rc := by
    obtain ⟨_, _, impossible, -⟩ := held
    contradiction
  cases pc with
  | pipe1 | pipe2 => contradiction
  | spawn other =>
    refine ⟨fun low => fresh (expects.1 low), fun high => ?_⟩
    have absent := expects.2 high
    contradiction
  | closePipes | check => exact fresh expects
  | wait other rc | blocked other rc | eintr other rc =>
    exact ⟨fun low => waited (expects.1 low), fun high => fresh (expects.2 high)⟩
  | cleanup rc =>
    rcases expects with absent | held
    · contradiction
    · exact .inr (fresh held)
  | kill other rc =>
    rintro _ ⟨⟩ low
    exact same.trans (expects process rfl low)
  | reap other rc =>
    rintro _ ⟨⟩
    obtain ⟨place, sent⟩ := expects process rfl
    exact ⟨place, same.trans sent⟩
  | returned rc => exact absurd rfl (expects.1 process)

namespace World

variable {world next : World}

/-- An entry comes before the end of the array. -/
theorem lt_of_past {index place : Nat} {child : Child} (past : world.childAt index = none)
    (found : world.childAt place = some child) : place < index := by
  have outside : world.slots.length ≤ index := by simpa [childAt] using past
  obtain ⟨slot, entry, -⟩ := Option.map_eq_some_iff.mp found
  obtain ⟨inside, -⟩ := List.getElem?_eq_some_iff.mp entry
  omega

/-- A live entry can be replaced without a child going missing. -/
theorem Missing.setChild (missing : world.Missing) {index : Nat} {process : Process}
    (found : world.childAt index = some (.alive process)) (child : Child) :
    (world.setChild index child).Missing := by
  obtain ⟨place, absent⟩ := missing
  refine ⟨place, ?_⟩
  rw [childAt_setChild_ne, absent]
  rintro rfl
  rw [found] at absent
  cases absent

/-- The start is coherent. -/
theorem coherent_start (wirings : List Wiring) (opened : List (Option Nat)) :
    (start wirings opened).Coherent := by
  refine .of_plain (show Pc.pipe1.Plain from trivial) ?_
  intro index child found
  simp only [start, childAt, List.getElem?_map, Option.map_map] at found
  obtain ⟨wiring, -, rfl⟩ := Option.map_eq_some_iff.mp found
  rfl

/-- The expectation of a place carries over to the entries of the next one, with one replaced. -/
theorem expects_setChild {pc target : Pc} {index : Nat} {old child : Child}
    (expects : ∀ place child, world.childAt place = some child → pc.Expects place child)
    (found : world.childAt index = some old) (here : target.Expects index child)
    (others : ∀ place child, place ≠ index → pc.Expects place child →
      target.Expects place child) :
    ∀ place other, (world.setChild index child).childAt place = some other →
      target.Expects place other := by
  intro place other entry
  by_cases same : place = index
  · rw [same, world.childAt_setChild_self found] at entry
    rw [same, ← Option.some.inj entry]
    exact here
  · rw [world.childAt_setChild_ne same] at entry
    exact others place other same (expects place other entry)

/-- An entry with a living process is not the idle one. -/
theorem apart_of_idle {index place : Nat} {child other : Child} {process : Process}
    (found : world.childAt index = some child) (idle : child.Idle)
    (entry : world.childAt place = some other) (alive : other = .alive process) :
    place ≠ index := by
  rintro rfl
  rw [found, Option.some.injEq] at entry
  exact idle process (entry.trans alive)

/-- Every step keeps the world coherent. -/
theorem Coherent.step {event : Event} (coherent : world.Coherent)
    (stepped : world.step event = some next) : next.Coherent := by
  have expects := coherent.children
  have rule := step_rule stepped
  cases rule with
  | pipe1 here =>
    rw [here] at expects
    exact .of_plain trivial expects
  | pipe2 here =>
    rw [here] at expects
    refine .of_plain trivial fun place child found => ⟨fun low => ?_, fun _ => ?_⟩
    · exact absurd low (Nat.not_lt_zero place)
    · exact expects place child found
  | allSpawned here past =>
    rw [here] at expects
    refine .of_plain trivial fun place child found => ?_
    exact (expects place child found).1 (lt_of_past past found)
  | closePipes here =>
    rw [here] at expects
    exact .of_plain trivial expects
  | stop here =>
    rw [here] at expects
    refine .of_ending rfl (.inl rfl) fun place child found => ?_
    exact .inr (expects place child found)
  | supervise here =>
    rw [here] at expects
    refine .of_plain trivial fun place child found => ⟨fun low => ?_, fun _ => ?_⟩
    · exact absurd low (Nat.not_lt_zero place)
    · exact expects place child found
  | waited here past =>
    rw [here] at expects
    refine .of_plain trivial fun place child found => ?_
    obtain ⟨process, status, rfl, -, clean⟩ := (expects place child found).1 (lt_of_past past found)
    constructor
    · intro other same
      contradiction
    · rintro ok _ _ ⟨⟩
      exact clean ok
  | @passWait index _ child here found idle =>
    rw [here] at expects
    obtain ⟨process, alive, -⟩ := (expects index child found).2 (Nat.le_refl index)
    exact absurd alive (idle process)
  | @reapWait index rc process status here found ended =>
    have before : ∀ place child, world.childAt place = some child →
        (Pc.wait index rc).Expects place child := by
      rcases here with here | here
      · rwa [here] at expects
      · rwa [here] at expects
    obtain ⟨_, alive, unsent⟩ := (before index _ found).2 (Nat.le_refl index)
    rw [← Child.alive.inj alive] at unsent
    refine .of_plain trivial (expects_setChild before found ⟨fun _ => ?_, fun high => ?_⟩ ?_)
    · exact ⟨process, status, rfl, unsent, fun ok => (ExitCode.after_eq_ok ok).2⟩
    · exact absurd high (Nat.not_succ_le_self index)
    · rintro place child apart ⟨low, high⟩
      refine ⟨fun below => ?_, fun above => high (Nat.le_of_succ_le above)⟩
      obtain ⟨other, result, rfl, kept, clean⟩ := low (by omega)
      exact ⟨other, result, rfl, kept, fun ok => clean (ExitCode.after_eq_ok ok).1⟩
  | block here =>
    rw [here] at expects
    exact .of_plain trivial expects
  | @giveUp index rc here =>
    refine .of_ending rfl (.inl rfl) fun place child found _ _ low => ?_
    exact absurd low (Nat.not_lt_zero place)
  | ignore here quiet =>
    have flag := coherent.flag _ _ here
    rw [quiet] at flag
    contradiction
  | @cleanup rc here =>
    have ending := coherent.ending rc (by rw [here]; rfl)
    refine .of_ending rfl ending fun place child found _ _ low => ?_
    exact absurd low (Nat.not_lt_zero place)
  | @killed index rc here past =>
    have ending := coherent.ending rc (by rw [here]; rfl)
    rw [here] at expects
    refine .of_ending rfl ending fun place child found process alive => ?_
    exact ⟨Nat.zero_le place, expects place child found process alive (lt_of_past past found)⟩
  | @sendTerm index rc process here found =>
    have ending := coherent.ending rc (by rw [here]; rfl)
    rw [here] at expects
    have why := ending.imp_right (And.imp_right fun missing =>
      missing.setChild found (.alive process.kill))
    refine .of_ending rfl why (expects_setChild expects found ?_ ?_)
    · rintro _ ⟨⟩ -
      rfl
    · intro place child apart sent other alive below
      exact sent other alive (by omega)
  | @passKill index rc child here found idle =>
    have ending := coherent.ending rc (by rw [here]; rfl)
    rw [here] at expects
    refine .of_ending rfl ending fun place other entry process alive below => ?_
    have apart := apart_of_idle found idle entry alive
    exact expects place other entry process alive (by omega)
  | @finished index rc here past =>
    have ending := coherent.ending rc (by rw [here]; rfl)
    rw [here] at expects
    refine .of_plain trivial fun place child found => ⟨fun process alive => ?_, ?_⟩
    · obtain ⟨above, -⟩ := expects place child found process alive
      exact absurd (lt_of_past past found) (Nat.not_lt.mpr above)
    · rintro rfl
      rcases ending with impossible | ⟨impossible, -⟩
      · contradiction
      · contradiction
  | @reapKill index rc process status here found ended =>
    have ending := coherent.ending rc (by rw [here]; rfl)
    rw [here] at expects
    have why := ending.imp_right (And.imp_right fun missing =>
      missing.setChild found (.reaped process status))
    refine .of_ending rfl why (expects_setChild expects found ?_ ?_)
    · intro other alive
      contradiction
    · intro place child apart sent other alive
      obtain ⟨above, termSent⟩ := sent other alive
      exact ⟨by omega, termSent⟩
  | @passReap index rc child here found idle =>
    have ending := coherent.ending rc (by rw [here]; rfl)
    rw [here] at expects
    refine .of_ending rfl ending fun place other entry process alive => ?_
    obtain ⟨above, termSent⟩ := expects place other entry process alive
    have apart := apart_of_idle found idle entry alive
    exact ⟨by omega, termSent⟩
  | @fork index pid slot positive here found =>
    have entry := childAt_of_slot found
    rw [here] at expects
    refine .of_plain trivial (expects_setChild expects entry ⟨fun _ => ?_, fun high => ?_⟩ ?_)
    · exact ⟨_, rfl, rfl⟩
    · exact absurd high (Nat.not_succ_le_self index)
    · rintro place child apart ⟨low, high⟩
      exact ⟨fun below => low (by omega), fun above => high (Nat.le_of_succ_le above)⟩
  | pipe1Fails here | pipe2Fails here =>
    rw [here] at expects
    refine .of_plain trivial fun place child found => ?_
    obtain rfl := expects place child found
    exact ⟨Child.idle_absent, fun ok => absurd ok (by decide)⟩
  | @forkFails index slot here found =>
    have entry := childAt_of_slot found
    rw [here] at expects
    have missing : world.Missing := by
      refine ⟨index, ?_⟩
      rw [← (expects index _ entry).2 (Nat.le_refl index)]
      exact entry
    refine .of_ending rfl (.inr ⟨rfl, missing⟩) fun place child held => ?_
    rcases Nat.lt_or_ge place index with low | high
    · exact .inr ((expects place child held).1 low)
    · exact .inl ((expects place child held).2 high)
  | signal => exact ⟨expects, fun _ _ _ => rfl, coherent.ending⟩
  | interrupt here =>
    rw [here] at expects
    exact ⟨expects, fun _ _ _ => rfl, fun _ ends => ends.elim⟩
  | @process index process after _ found moved =>
    refine ⟨expects_setChild expects found ?_ fun _ _ _ held => held, coherent.flag, ?_⟩
    · exact (expects index _ found).move moved.termSent
    · intro rc ends
      exact (coherent.ending rc ends).imp_right
        (And.imp_right fun missing => missing.setChild found _)

/-! ## A signal that must be answered -/

/-- The child was not waited for yet. -/
def Unreaped (world : World) (index : Nat) : Prop :=
  ∃ child, world.childAt index = some child ∧ ∀ process status, child ≠ .reaped process status

/-- `waitpid` in `pd_wait_children` returns the status of a child now. -/
def Reaps (world : World) : Prop :=
  match world.pc with
  | .wait index _ | .blocked index _ =>
    ((world.childAt index).bind Child.waitStatus).isSome = true
  | _ => False

instance (world : World) : Decidable world.Reaps := by
  unfold Reaps
  split <;> infer_instance

/-- `pd_wait_children` reaps no child once a signal was delivered. -/
def Heeds (world : World) (event : Event) : Prop :=
  event = .dispatcher → world.Reaps → world.interrupted = false

instance (world : World) (event : Event) : Decidable (world.Heeds event) := by
  unfold Heeds
  infer_instance

/-- A signal is pending, or the run already ends because of it or of a missing child. -/
def Warned (world : World) : Prop :=
  match world.pc with
  | .cleanup rc | .kill _ rc | .reap _ rc | .returned rc => rc = .interrupted ∨ world.Missing
  | _ => world.interrupted = true

/-- At the same place a warning lasts. -/
theorem Warned.mono (warned : world.Warned) (place : next.pc = world.pc)
    (missing : world.Missing → next.Missing)
    (flag : world.interrupted = true → next.interrupted = true) : next.Warned := by
  unfold Warned at warned ⊢
  rw [place]
  split at warned
  · exact warned.imp_right missing
  · exact warned.imp_right missing
  · exact warned.imp_right missing
  · exact warned.imp_right missing
  · exact flag warned

/-- A signal is to be answered for a child: the child is not reaped without its `SIGTERM`. -/
structure Owed (world : World) (index : Nat) : Prop where
  inside : ∃ child, world.childAt index = some child
  clean : ∀ process status, world.childAt index = some (.reaped process status) →
    process.termSent = true
  warned : world.Warned

/-- Going on in the same array answers nothing yet. -/
theorem Owed.move {index : Nat} (owed : world.Owed index)
    (same : ∀ place, next.childAt place = world.childAt place) (warned : next.Warned) :
    next.Owed index where
  inside := by rw [same]; exact owed.inside
  clean := by rw [same]; exact owed.clean
  warned := warned

/-- A replaced entry answers when it is reaped with its `SIGTERM`, or not reaped. -/
theorem Owed.set {index place : Nat} {old child : Child} (owed : world.Owed index)
    (found : world.childAt place = some old)
    (same : ∀ other, next.childAt other = (world.setChild place child).childAt other)
    (clean : ∀ process status, child = .reaped process status → process.termSent = true)
    (warned : next.Warned) : next.Owed index := by
  by_cases here : index = place
  · subst here
    have entry := (same index).trans (world.childAt_setChild_self found child)
    refine ⟨⟨child, entry⟩, fun process status reaped => ?_, warned⟩
    exact clean process status (Option.some.inj (entry.symm.trans reaped))
  · have entry := (same index).trans (world.childAt_setChild_ne here child)
    exact ⟨entry ▸ owed.inside, entry ▸ owed.clean, warned⟩

/-- A live entry answers later. -/
theorem Owed.set_alive {index place : Nat} {old : Child} (owed : world.Owed index)
    (found : world.childAt place = some old) (process : Process)
    (same : ∀ other, next.childAt other = (world.setChild place (.alive process)).childAt other)
    (warned : next.Warned) : next.Owed index := by
  apply owed.set found same _ warned
  intro other status reaped
  contradiction

/-- What is owed stays owed while no child is reaped unheeded. -/
theorem Owed.step {index : Nat} {event : Event} (coherent : world.Coherent)
    (owed : world.Owed index) (heeds : world.Heeds event)
    (stepped : world.step event = some next) : next.Owed index := by
  have expects := coherent.children
  have warned := owed.warned
  have rule := step_rule stepped
  cases rule with
  | pipe1 here | pipe2 here | allSpawned here | closePipes here | block here =>
    rw [Warned, here] at warned
    exact owed.move (fun _ => rfl) warned
  | stop here | giveUp here => exact owed.move (fun _ => rfl) (.inl rfl)
  | supervise here quiet | ignore here quiet =>
    rw [Warned, here, quiet] at warned
    contradiction
  | cleanup here | killed here | passKill here | finished here | passReap here =>
    rw [Warned, here] at warned
    exact owed.move (fun _ => rfl) warned
  | waited here past =>
    rw [here] at expects
    obtain ⟨child, found⟩ := owed.inside
    obtain ⟨process, status, rfl, unsent, -⟩ :=
      (expects index child found).1 (lt_of_past past found)
    have sent := owed.clean process status found
    rw [unsent] at sent
    contradiction
  | @passWait place rc child here found idle =>
    rw [here] at expects
    obtain ⟨process, alive, -⟩ := (expects place child found).2 (Nat.le_refl place)
    exact absurd alive (idle process)
  | @reapWait place rc process status here found ended =>
    have status : (Child.alive process).waitStatus = some status := by
      simp [Child.waitStatus, ended]
    have reaps : world.Reaps := by
      rcases here with here | here
      · simp [Reaps, here, found, status]
      · simp [Reaps, here, found, status]
    have quiet := heeds rfl reaps
    rcases here with here | here
    · rw [Warned, here, quiet] at warned
      contradiction
    · rw [Warned, here, quiet] at warned
      contradiction
  | @sendTerm place rc process here found =>
    rw [Warned, here] at warned
    refine owed.set_alive found _ (fun _ => rfl) ?_
    exact warned.imp_right fun missing => missing.setChild found _
  | @reapKill place rc process status here found ended =>
    rw [Warned, here] at warned
    rw [here] at expects
    obtain ⟨-, sent⟩ := expects place _ found process rfl
    refine owed.set found (fun _ => rfl) ?_ ?_
    · rintro _ _ ⟨⟩
      exact sent
    · exact warned.imp_right fun missing => missing.setChild found _
  | @fork place pid slot positive here found =>
    have entry := childAt_of_slot found
    rw [Warned, here] at warned
    exact owed.set_alive entry _ (fun _ => rfl) warned
  | pipe1Fails here | pipe2Fails here =>
    rw [here] at expects
    obtain ⟨child, found⟩ := owed.inside
    obtain rfl := expects index child found
    exact owed.move (fun _ => rfl) (.inr ⟨index, found⟩)
  | @forkFails place slot here found =>
    have entry := childAt_of_slot found
    rw [here] at expects
    rw [(expects place _ entry).2 (Nat.le_refl place)] at entry
    exact owed.move (fun _ => rfl) (.inr ⟨place, entry⟩)
  | signal awake =>
    exact owed.move (fun _ => rfl) (warned.mono rfl id fun _ => rfl)
  | interrupt here => exact owed.move (fun _ => rfl) rfl
  | @process place process after _ found moved =>
    exact owed.set_alive found _ (fun _ => rfl)
      (warned.mono rfl (fun missing => missing.setChild found _) id)

/-- A signal is owed to every child that was not waited for. -/
theorem owed_deliver {index : Nat} (coherent : world.Coherent) (unreaped : world.Unreaped index) :
    world.deliver.Owed index := by
  have rule : Rule world .signal world.deliver := step_rule rfl
  obtain ⟨child, found, live⟩ := unreaped
  refine ⟨⟨child, found⟩, fun process status reaped => ?_, ?_⟩
  · exact absurd (Option.some.inj (found.symm.trans reaped)) (live process status)
  have ending := coherent.ending
  have expects := coherent.children index child found
  generalize world.deliver = next at rule ⊢
  cases rule with
  | interrupt => rfl
  | process _ moved => cases moved
  | signal =>
    unfold Warned
    cases here : world.pc with
    | cleanup rc | kill _ rc | reap _ rc =>
      exact (ending rc (by rw [here]; rfl)).imp_right And.right
    | returned rc =>
      rw [here] at expects
      refine .inr ⟨index, ?_⟩
      cases child with
      | absent => exact found
      | alive process => exact absurd rfl (expects.1 process)
      | reaped process status => exact absurd rfl (live process status)
    | _ => rfl

/-! ## Entries over a run -/

/-- A step changes an entry only when its process is live or is being forked. -/
theorem step_childAt {event : Event} (stepped : world.step event = some next) (place : Nat) :
    next.childAt place = world.childAt place ∨
      ∃ old child, world.childAt place = some old ∧ next.childAt place = some child ∧
        ((∃ process, old = .alive process) ∨ world.pc = .spawn place) := by
  have replaced {index : Nat} {old : Child} (found : world.childAt index = some old)
      (child : Child) (why : (∃ process, old = .alive process) ∨ world.pc = .spawn index) :
      (world.setChild index child).childAt place = world.childAt place ∨
        ∃ old other, world.childAt place = some old ∧
          (world.setChild index child).childAt place = some other ∧
            ((∃ process, old = .alive process) ∨ world.pc = .spawn place) := by
    by_cases same : place = index
    · subst same
      exact .inr ⟨old, child, found, world.childAt_setChild_self found child, why⟩
    · exact .inl (world.childAt_setChild_ne same child)
  have rule := step_rule stepped
  cases rule with
  | reapWait _ found | sendTerm _ found | reapKill _ found | process found =>
    exact replaced found _ (.inl ⟨_, rfl⟩)
  | @fork index pid slot positive here found =>
    have entry := childAt_of_slot found
    exact replaced entry _ (.inr here)
  | _ => exact .inl rfl

/-- A reaped child stays reaped. -/
theorem reaped_step {event : Event} {place : Nat} {process : Process} {status : Status}
    (coherent : world.Coherent) (found : world.childAt place = some (.reaped process status))
    (stepped : world.step event = some next) :
    next.childAt place = some (.reaped process status) := by
  rcases step_childAt stepped place with same | ⟨old, child, entry, -, ⟨other, rfl⟩ | here⟩
  · exact same.trans found
  · rw [found] at entry
    cases entry
  · have expects := coherent.children place _ found
    rw [here] at expects
    have absent := expects.2 (Nat.le_refl place)
    contradiction

/-- The array keeps its length. -/
theorem past_step {event : Event} {place : Nat} (past : world.childAt place = none)
    (stepped : world.step event = some next) : next.childAt place = none := by
  rcases step_childAt stepped place with same | ⟨old, child, entry, -⟩
  · exact same.trans past
  · rw [past] at entry
    contradiction

/-- Only a signal sets the flag. -/
theorem signal_of_flag {event : Event} (quiet : ¬world.interrupted = true)
    (stepped : world.step event = some next) (flag : next.interrupted = true) :
    event = .signal := by
  have rule := step_rule stepped
  cases rule with
  | signal | interrupt => rfl
  | _ => exact absurd flag quiet

/-- When `pd_wait_children` reaps a child, the child had not been sent `SIGTERM`. -/
theorem reaped_of_reaps (coherent : world.Coherent) (reaps : world.Reaps)
    (stepped : world.step .dispatcher = some next) : ∃ index process status,
      world.childAt index = some (.alive process) ∧ process.termSent = false ∧
        next.childAt index = some (.reaped process status) := by
  have waits (index : Nat) (rc : ExitCode) (here : world.pc = .wait index rc ∨
      world.pc = .blocked index rc)
      (ready : ((world.childAt index).bind Child.waitStatus).isSome = true) :
      ∃ index process status, world.childAt index = some (.alive process) ∧
        process.termSent = false ∧ next.childAt index = some (.reaped process status) := by
    obtain ⟨status, bound⟩ := Option.isSome_iff_exists.mp ready
    obtain ⟨child, found, waited⟩ := Option.bind_eq_some_iff.mp bound
    obtain ⟨process, rfl, ended⟩ := Child.waitStatus_some waited
    have expects := coherent.children index _ found
    have fresh : (Child.alive process).Fresh := by
      rcases here with here | here
      · rw [here] at expects
        exact expects.2 (Nat.le_refl index)
      · rw [here] at expects
        exact expects.2 (Nat.le_refl index)
    obtain ⟨_, ⟨⟩, unsent⟩ := fresh
    have positive : ¬(Child.alive process).pid ≤ 0 := by
      have above := process.positive
      simp only [Child.pid]
      omega
    have moved : next = world.waitFor index rc (.alive process) := by
      rcases here with here | here
      · simp only [step, advance, here, found, if_neg positive, Option.some.injEq] at stepped
        exact stepped.symm
      · simp only [step, advance, here, found, waited, Option.some.injEq] at stepped
        exact stepped.symm
    refine ⟨index, process, status, found, unsent, ?_⟩
    rw [moved, waitFor, waited]
    exact world.childAt_setChild_self found _
  unfold Reaps at reaps
  split at reaps
  · rename_i index rc here
    exact waits index rc (.inl here) reaps
  · rename_i index rc here
    exact waits index rc (.inr here) reaps
  · contradiction

end World

/-! ## Runs -/

/-- A signal was delivered in the run while the child was not waited for. -/
def Struck (start : World) (events : List Event) (index : Nat) : Prop :=
  ∃ before after world, events = before ++ .signal :: after ∧
    Runs.run World.step start before = some world ∧ world.Unreaped index

/-- What a returned `pd_pipeline_run` says of its children and its signals. -/
structure Accounts (start : World) (events : List Event) (last : World) (rc : ExitCode) : Prop where
  /-- Every child was reaped. -/
  reaped : ∀ index child, last.childAt index = some child → child.pid = -1
  /-- Success means that all children succeeded and no signal came before the last was reaped. -/
  ok : rc = .ok →
    (∀ index child, last.childAt index = some child →
      ∃ process, child = .reaped process (.exited 0)) ∧ ∀ index, ¬Struck start events index
  /-- A signal makes the result, and the child it comes before is sent `SIGTERM`. -/
  interrupted : ∀ index, Struck start events index → rc = .interrupted ∧
    ∃ process status, last.childAt index = some (.reaped process status) ∧
      process.termSent = true

section Runs

variable {wirings : List Wiring} {opened : List (Option Nat)} {events : List Event} {last : World}

/-- Every world of a run is coherent. -/
theorem coherent_of_run (ran : Runs.run World.step (.start wirings opened) events = some last) :
    last.Coherent :=
  Runs.stable (fun _ _ _ coherent stepped => World.Coherent.step coherent stepped)
    (World.coherent_start wirings opened) ran

/-- What a signal owes to a child is owed at the end when the run heeds its signals. -/
theorem owed_of_struck (ran : Runs.run World.step (.start wirings opened) events = some last)
    (heeds : Runs.Along World.step World.Heeds (.start wirings opened) events) {index : Nat}
    (struck : Struck (.start wirings opened) events index) : last.Owed index := by
  obtain ⟨before, after, world, rfl, reached, unreaped⟩ := struck
  have coherent := coherent_of_run reached
  have delivered : world.step .signal = some world.deliver := rfl
  rw [Runs.run_append reached, Runs.run, delivered] at ran
  have rest := (heeds.rest reached).2
  rw [delivered] at rest
  have preserved (state : World) (event : Event) (next : World)
      (holds : state.Coherent ∧ state.Owed index) (met : state.Heeds event)
      (stepped : state.step event = some next) : next.Coherent ∧ next.Owed index :=
    ⟨holds.1.step stepped, holds.2.step holds.1 met stepped⟩
  have begins : world.deliver.Coherent ∧ world.deliver.Owed index :=
    ⟨coherent.step delivered, World.owed_deliver coherent unreaped⟩
  exact (Runs.invariant preserved begins rest ran).2

/-- A child that is reaped in a run is reaped at its end. -/
theorem reaped_of_run {world : World} (coherent : world.Coherent) {place : Nat}
    {process : Process} {status : Status}
    (found : world.childAt place = some (.reaped process status))
    (ran : Runs.run World.step world events = some last) :
    last.childAt place = some (.reaped process status) := by
  have preserved (state : World) (event : Event) (next : World)
      (holds : state.Coherent ∧ state.childAt place = some (.reaped process status))
      (stepped : state.step event = some next) :
      next.Coherent ∧ next.childAt place = some (.reaped process status) :=
    ⟨holds.1.step stepped, World.reaped_step holds.1 holds.2 stepped⟩
  exact (Runs.stable preserved ⟨coherent, found⟩ ran).2

/-- A child that is live later in a run was not waited for before. -/
theorem unreaped_of_run {world : World} (coherent : world.Coherent) {place : Nat}
    {process : Process} (found : last.childAt place = some (.alive process))
    (ran : Runs.run World.step world events = some last) : world.Unreaped place := by
  cases entry : world.childAt place with
  | none =>
    have past : last.childAt place = none :=
      Runs.stable (fun _ _ _ past stepped => World.past_step past stepped) entry ran
    rw [past] at found
    contradiction
  | some child =>
    refine ⟨child, entry, ?_⟩
    rintro other status rfl
    have kept := reaped_of_run coherent entry ran
    rw [found] at kept
    cases kept

/-- For every array of children, every initial set of descriptors and every interleaving in which
`pd_pipeline_run` returns after it has spawned all of them: it accounts for every child and every
signal if and only if `pd_wait_children` reaps no child after a signal was delivered. -/
theorem accounts_iff_heeds (wirings : List Wiring) (opened : List (Option Nat))
    (events : List Event) (last : World)
    (ran : Runs.run World.step (.start wirings opened) events = some last) (rc : ExitCode)
    (returned : last.pc = .returned rc)
    (spawned : ∀ slot ∈ last.slots, slot.child ≠ .absent) :
    Accounts (.start wirings opened) events last rc ↔
      Runs.Along World.step World.Heeds (.start wirings opened) events := by
  have coherent := coherent_of_run ran
  have expects := coherent.children
  rw [returned] at expects
  have spawned (index : Nat) (child : Child) (found : last.childAt index = some child) :
      child ≠ .absent := by
    obtain ⟨slot, entry, rfl⟩ := Option.map_eq_some_iff.mp found
    exact spawned slot (List.mem_of_getElem? entry)
  have complete : ¬last.Missing := by
    rintro ⟨index, absent⟩
    exact spawned index _ absent rfl
  constructor
  · intro accounts
    apply Runs.along_of_events
    rintro before event after world rfl reached rfl reaps
    have here := coherent_of_run reached
    rw [Runs.run_append reached, Runs.run] at ran
    cases stepped : world.step .dispatcher with
    | none =>
      rw [stepped] at ran
      contradiction
    | some next =>
      rw [stepped] at ran
      obtain ⟨index, process, status, found, unsent, gone⟩ :=
        World.reaped_of_reaps here reaps stepped
      have kept := reaped_of_run (here.step stepped) gone ran
      by_contra flag
      -- The signal that set the flag came while the child was not waited for.
      obtain ⟨first, event, rest, mid, following, rfl, toMid, quiet, moved, set⟩ :=
        @Runs.exists_change _ _ World.step (fun state => state.interrupted = true) _ _ _
          Bool.false_ne_true reached ((Bool.not_eq_false _).mp flag)
      obtain rfl := World.signal_of_flag quiet moved set
      have coherentMid := coherent_of_run toMid
      have onward : Runs.run World.step mid (.signal :: rest) = some world :=
        (Runs.run_append toMid _).symm.trans reached
      have unreaped := unreaped_of_run coherentMid found onward
      obtain ⟨-, other, result, ended, sent⟩ := accounts.interrupted index
        ⟨first, rest ++ .dispatcher :: after, mid, by simp, toMid, unreaped⟩
      rw [kept] at ended
      obtain ⟨rfl, -⟩ := Child.reaped.inj (Option.some.inj ended)
      rw [unsent] at sent
      contradiction
  · intro heeds
    have answered (index : Nat) (struck : Struck (.start wirings opened) events index) :
        rc = .interrupted ∧ ∃ process status,
          last.childAt index = some (.reaped process status) ∧ process.termSent = true := by
      have owed := owed_of_struck ran heeds struck
      have warned := owed.warned
      rw [World.Warned, returned] at warned
      refine ⟨warned.resolve_right complete, ?_⟩
      obtain ⟨child, found⟩ := owed.inside
      cases child with
      | absent => exact absurd rfl (spawned index _ found)
      | alive process => exact absurd rfl ((expects index _ found).1 process)
      | reaped process status => exact ⟨process, status, found, owed.clean process status found⟩
    constructor
    · intro index child found
      cases child with
      | absent => rfl
      | alive process => exact absurd rfl ((expects index _ found).1 process)
      | reaped => rfl
    · rintro rfl
      constructor
      · intro index child found
        cases child with
        | absent => exact absurd rfl (spawned index _ found)
        | alive process => exact absurd rfl ((expects index _ found).1 process)
        | reaped process status =>
          rw [(expects index _ found).2 rfl process status rfl]
          exact ⟨process, rfl⟩
      · intro index struck
        have signalled := (answered index struck).1
        contradiction
    · exact answered

end Runs

/-- Descriptors 0, 1 and 2 are open. -/
def standardFds : List (Option Nat) := [some 0, some 1, some 2]

/-- The steps of the dispatcher up to `pd_wait_children`. -/
def spawning : List Event :=
  [.dispatcher, .dispatcher, .fork 11, .fork 12, .fork 13, .dispatcher, .dispatcher, .dispatcher]

/-- A signal interrupts the first `waitpid`, and the children are killed. -/
def killing : List Event :=
  [.dispatcher, .signal, .dispatcher, .dispatcher, .dispatcher, .dispatcher, .dispatcher,
    .exits 0 (.signaled sigterm), .exits 1 (.signaled sigterm), .exits 2 (.signaled sigterm),
    .dispatcher, .dispatcher, .dispatcher, .dispatcher]

/-- The run with an interrupted `waitpid`. -/
def interruptedRun : List Event := spawning ++ killing

/-- Where it ends. -/
def interruptedEnd : World :=
  (Runs.run World.step (.start pipelineWirings standardFds) interruptedRun).getD
    (.start pipelineWirings standardFds)

/-- The interrupted run accounts for its signal. -/
theorem accounts_iff_heeds_interrupted :
    Accounts (.start pipelineWirings standardFds) interruptedRun interruptedEnd .interrupted ↔
      Runs.Along World.step World.Heeds (.start pipelineWirings standardFds) interruptedRun :=
  accounts_iff_heeds pipelineWirings standardFds interruptedRun interruptedEnd
    (Runs.run_eq_getD (by decide +kernel) _) .interrupted (by decide +kernel) (by decide +kernel)

/-- All children succeed and are waited for. -/
def succeeding : List Event :=
  [.exits 0 (.exited 0), .exits 1 (.exited 0), .exits 2 (.exited 0), .dispatcher, .dispatcher,
    .dispatcher, .dispatcher]

/-- A signal falls between the check and the first `waitpid`. -/
def unseenRun : List Event := spawning ++ .signal :: succeeding

/-- Where it ends. -/
def unseenEnd : World :=
  (Runs.run World.step (.start pipelineWirings standardFds) unseenRun).getD
    (.start pipelineWirings standardFds)

/-- The run succeeds as if there had been no signal. -/
theorem unseen_signal_ok :
    Runs.run World.step (.start pipelineWirings standardFds) unseenRun = some unseenEnd ∧
      unseenEnd.pc = .returned .ok ∧ (∀ slot ∈ unseenEnd.slots, slot.child ≠ .absent) ∧
      ¬Accounts (.start pipelineWirings standardFds) unseenRun unseenEnd .ok := by
  refine ⟨Runs.run_eq_getD (by decide +kernel) _, by decide +kernel, by decide +kernel, ?_⟩
  intro accounts
  apply (accounts.ok rfl).2 0
  refine ⟨spawning, succeeding, _, rfl, rfl, _, rfl, ?_⟩
  intro process status same
  contradiction

end StreamPipeline.Dispatch
