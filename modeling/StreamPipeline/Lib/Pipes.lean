import StreamPipeline.Lib.Lines
import StreamPipeline.Lib.Runs

/-!
# Line filters connected by pipes

A filter takes its lines from a pipe and prints through a buffer of its own into the next pipe,
which holds a bounded number of bytes. How much a call reads or writes, what is flushed after a
line and who runs next is left to the scheduler. Whatever it chooses, the chain comes to its end
with the same bytes in the file behind it.
-/

namespace StreamPipeline.Pipes

/-- A program that reads lines. -/
structure Stage (σ : Type) where
  /-- The state before the first line. -/
  start : σ
  /-- The next state and what is printed for a line. -/
  handle : σ → Bytes → σ × Bytes
  /-- What is printed at the end. -/
  finish : σ → Bytes

/-- Where a program stands. -/
inductive Phase where
  /-- It takes lines. -/
  | running
  /-- It has no more input and writes out its buffer. -/
  | ended
  /-- It has exited, which closes its pipes. -/
  | exited
  deriving DecidableEq

/-- A program in the middle of its run. -/
structure Node (σ : Type) where
  /-- Where it stands. -/
  phase : Phase
  /-- What it has read of lines it has not handled. -/
  buf : Bytes
  /-- Its state. -/
  state : σ
  /-- What it has printed and not flushed. -/
  held : Bytes
  /-- What is left of a `write`. -/
  pending : Bytes

/-- A call that changes the program and what it reads from. -/
inductive Turn where
  /-- `read` returns some of the bytes that are there. -/
  | read (count : Nat)
  /-- A line is handled, after which some of the buffer is flushed. -/
  | handle (flush : Nat)
  /-- `read` returns nothing, and what is left of a line is handled. -/
  | finish

/-- What a program can do. -/
inductive Act where
  /-- It goes on with its input. -/
  | turn (turn : Turn)
  /-- `write` passes on some bytes. -/
  | write (count : Nat)
  /-- It exits. -/
  | exit

/-- Programs one behind the other, with the pipe before each. -/
inductive Chain (σ : Type) where
  /-- A file. -/
  | sink (content : Bytes)
  /-- A program and what it prints into; its pipe is closed when nobody can write to it. -/
  | link (stage : Stage σ) (pipe : Bytes) (closed : Bool) (node : Node σ) (next : Chain σ)

section Steps

variable {σ : Type}

/-- What a program prints for the rest of its lines. -/
def Stage.print (stage : Stage σ) (state : σ) : List Bytes → Bytes
  | [] => stage.finish state
  | line :: later =>
    (stage.handle state line).2 ++ stage.print (stage.handle state line).1 later

/-- The program goes on with its input; a `write` it is in comes first. -/
def Node.turn (stage : Stage σ) (pipe : Bytes) (closed : Bool) (node : Node σ) :
    Turn → Option (Bytes × Node σ)
  | .read count =>
    if node.phase = .running ∧ node.pending = [] ∧ lf ∉ node.buf ∧ pipe.take count ≠ [] then
      some (pipe.drop count, { node with buf := node.buf ++ pipe.take count })
    else none
  | .handle flush =>
    if node.phase = .running ∧ node.pending = [] then
      (cutAt lf node.buf).map fun cut =>
        (pipe, { node with
          buf := cut.2
          state := (stage.handle node.state (cut.1 ++ [lf])).1
          held := (node.held ++ (stage.handle node.state (cut.1 ++ [lf])).2).drop flush
          pending := (node.held ++ (stage.handle node.state (cut.1 ++ [lf])).2).take flush })
    else none
  | .finish =>
    if node.phase = .running ∧ node.pending = [] ∧ lf ∉ node.buf ∧ pipe = [] ∧ closed = true then
      some ([], { node with
        phase := .ended
        buf := []
        held := []
        pending := node.held ++ stage.print node.state (lines node.buf) })
    else none

/-- Bytes are written to the first pipe, when it has room, or to the file. -/
def Chain.push (capacity : Nat) (bytes : Bytes) : Chain σ → Option (Chain σ)
  | .sink content => some (.sink (content ++ bytes))
  | .link stage pipe closed node next =>
    if pipe.length + bytes.length ≤ capacity then
      some (.link stage (pipe ++ bytes) closed node next)
    else none

/-- The writer of the first pipe exits. -/
def Chain.close : Chain σ → Chain σ
  | .sink content => .sink content
  | .link stage pipe _ node next => .link stage pipe true node next

/-- The first program takes a step. -/
def Chain.act (capacity : Nat) : Chain σ → Act → Option (Chain σ)
  | .sink _, _ => none
  | .link stage pipe closed node next, .turn turn =>
    (node.turn stage pipe closed turn).map fun moved => .link stage moved.1 closed moved.2 next
  | .link stage pipe closed node next, .write count =>
    if node.pending.take count = [] then none
    else
      (next.push capacity (node.pending.take count)).map fun filled =>
        .link stage pipe closed { node with pending := node.pending.drop count } filled
  | .link stage pipe closed node next, .exit =>
    if node.phase = .ended ∧ node.pending = [] then
      some (.link stage pipe closed { node with phase := .exited } next.close)
    else none

/-- The program at a position takes a step. -/
def Chain.step (capacity : Nat) : Chain σ → Nat × Act → Option (Chain σ)
  | chain, (0, act) => chain.act capacity act
  | .sink _, (_ + 1, _) => none
  | .link stage pipe closed node next, (position + 1, act) =>
    (next.step capacity (position, act)).map fun moved => .link stage pipe closed node moved

/-- A program before its first call. -/
def Chain.filter (stage : Stage σ) (next : Chain σ) : Chain σ :=
  .link stage [] false ⟨.running, [], stage.start, [], []⟩ next

/-- A program that has a text to print and reads nothing. -/
def Chain.printer (stage : Stage σ) (text : Bytes) (next : Chain σ) : Chain σ :=
  .link stage [] true ⟨.ended, [], stage.start, [], text⟩ next

/-! ## What does not change -/

/-- What a program has still to write when this much input is to come. -/
def Node.rest (stage : Stage σ) (node : Node σ) (incoming : Bytes) : Bytes :=
  node.pending ++ node.held ++
    if node.phase = .running then stage.print node.state (lines (node.buf ++ incoming)) else []

/-- The calls for input and for the exit that a program has still to make, at most. -/
def Node.due (node : Node σ) (incoming : Bytes) : Nat :=
  match node.phase with
  | .running => incoming.length + (lines (node.buf ++ incoming)).length + 2
  | .ended => 1
  | .exited => 0

/-- The calls a program has still to make, at most. -/
def Node.calls (stage : Stage σ) (node : Node σ) (incoming : Bytes) : Nat :=
  node.due incoming + (node.rest stage incoming).length

/-- What the file holds in the end when this much is written to the first pipe. -/
def Chain.answer : Chain σ → Bytes → Bytes
  | .sink content, incoming => content ++ incoming
  | .link stage pipe _ node next, incoming => next.answer (node.rest stage (pipe ++ incoming))

/-- The calls all programs have still to make, at most. -/
def Chain.calls : Chain σ → Bytes → Nat
  | .sink _, _ => 0
  | .link stage pipe _ node next, incoming =>
    node.calls stage (pipe ++ incoming) + next.calls (node.rest stage (pipe ++ incoming))

/-- A program fits what it reads from. -/
structure Node.Sound (pipe : Bytes) (closed : Bool) (node : Node σ) (incoming : Bytes) : Prop where
  /-- Nothing comes through a closed pipe. -/
  shut : closed = true → incoming = []
  /-- The input is used up at the end. -/
  used : node.phase ≠ .running → closed = true ∧ pipe = [] ∧ node.held = []
  /-- All is written at the exit. -/
  quiet : node.phase = .exited → node.pending = []

/-- Every program fits its pipe, and the pipes of those that have exited are closed. -/
def Chain.Sound : Chain σ → Bool → Bytes → Prop
  | .sink _, _, _ => True
  | .link stage pipe closed node next, exited, incoming =>
    closed = exited ∧ node.Sound pipe closed incoming ∧
      next.Sound (node.phase = .exited) (node.rest stage (pipe ++ incoming))

/-- All programs have exited. -/
def Chain.Exited : Chain σ → Prop
  | .sink _ => True
  | .link _ _ _ node next => node.phase = .exited ∧ next.Exited

/-- The file behind the last program. -/
def Chain.content : Chain σ → Bytes
  | .sink content => content
  | .link _ _ _ _ next => next.content

/-- What waits in the first pipe. -/
def Chain.pipe : Chain σ → Bytes
  | .sink _ => []
  | .link _ pipe _ _ _ => pipe

end Steps

section Kept

variable {σ : Type} {stage : Stage σ} {capacity : Nat}

/-- A line that is read whole is the next one. -/
theorem lines_of_cut {buf line rest : Bytes} (cut : cutAt lf buf = some (line, rest))
    (incoming : Bytes) : lines (buf ++ incoming) = (line ++ [lf]) :: lines (rest ++ incoming) := by
  have ⟨shape, inner⟩ := cutAt_some cut
  rw [shape, List.append_assoc, List.cons_append, lines_cons inner]

/-- A program that takes lines fits any pipe that may still fill. -/
theorem Node.sound_of_running {pipe incoming : Bytes} {closed : Bool} {node : Node σ}
    (running : node.phase = .running) (shut : closed = true → incoming = []) :
    node.Sound pipe closed incoming where
  shut := shut
  used past := absurd running past
  quiet past := by
    rw [running] at past
    contradiction

/-- Going on with the input changes nothing of what is still to be written, and is a call that was
due. -/
theorem Node.turn_kept {pipe left : Bytes} {closed : Bool} {node next : Node σ} {incoming : Bytes}
    {turn : Turn} (sound : node.Sound pipe closed incoming)
    (turned : node.turn stage pipe closed turn = some (left, next)) :
    next.Sound left closed incoming ∧ node.phase = .running ∧ next.phase ≠ .exited ∧
      next.rest stage (left ++ incoming) = node.rest stage (pipe ++ incoming) ∧
      next.calls stage (left ++ incoming) < node.calls stage (pipe ++ incoming) := by
  cases turn with
  | read count =>
    rw [Node.turn] at turned
    split at turned
    · rename_i reads
      obtain ⟨running, written, unread, some⟩ := reads
      cases turned
      have joined : node.buf ++ pipe.take count ++ (pipe.drop count ++ incoming) =
          node.buf ++ (pipe ++ incoming) := by
        rw [List.append_assoc, ← List.append_assoc (pipe.take count), List.take_append_drop]
      have shorter : (pipe.drop count).length < pipe.length := by
        have filled := List.length_pos_iff.mpr some
        rw [List.length_take] at filled
        rw [List.length_drop]
        omega
      refine ⟨Node.sound_of_running running sound.shut, running, by simp [running], ?_, ?_⟩
      · simp only [Node.rest, joined]
      · simp only [Node.calls, Node.due, Node.rest, joined, running, List.length_append]
        omega
    · contradiction
  | handle flush =>
    rw [Node.turn] at turned
    split at turned
    · rename_i free
      obtain ⟨running, written⟩ := free
      obtain ⟨⟨line, after⟩, cut, same⟩ := Option.map_eq_some_iff.mp turned
      cases same
      have next := lines_of_cut cut (pipe ++ incoming)
      have kept : ∀ later : Bytes,
          (node.held ++ (stage.handle node.state (line ++ [lf])).2).take flush ++
              (node.held ++ (stage.handle node.state (line ++ [lf])).2).drop flush ++ later =
            node.pending ++ node.held ++
              ((stage.handle node.state (line ++ [lf])).2 ++ later) := by
        intro later
        rw [List.take_append_drop, written, List.nil_append, List.append_assoc]
      refine ⟨Node.sound_of_running running sound.shut, running, by simp [running], ?_, ?_⟩
      · simp only [Node.rest, running, next, Stage.print, kept, if_true]
      · simp only [Node.calls, Node.due, Node.rest, running, next, Stage.print, kept, if_true,
          List.length_cons]
        omega
    · contradiction
  | finish =>
    rw [Node.turn] at turned
    split at turned
    · rename_i ends
      obtain ⟨running, written, unread, empty, shut⟩ := ends
      cases turned
      have none : incoming = [] := sound.shut shut
      refine ⟨⟨sound.shut, fun _ => ⟨shut, rfl, rfl⟩, ?_⟩, running, ?_, ?_, ?_⟩
      · intro past
        contradiction
      · intro past
        contradiction
      · simp [Node.rest, running, written, empty, none]
      · simp [Node.calls, Node.due, Node.rest, running, written, empty, none]
    · contradiction

/-- Bytes in the first pipe are bytes that no longer come. -/
theorem Chain.push_kept {bytes incoming : Bytes} {chain filled : Chain σ}
    (sound : chain.Sound false (bytes ++ incoming))
    (pushed : chain.push capacity bytes = some filled) :
    filled.Sound false incoming ∧ filled.answer incoming = chain.answer (bytes ++ incoming) ∧
      filled.calls incoming = chain.calls (bytes ++ incoming) := by
  cases chain with
  | sink content =>
    cases pushed
    refine ⟨trivial, ?_, rfl⟩
    rw [Chain.answer, Chain.answer, List.append_assoc]
  | link stage pipe closed node next =>
    rw [Chain.push] at pushed
    split at pushed
    · cases pushed
      have ⟨opened, fits, later⟩ := sound
      rw [← List.append_assoc] at later
      refine ⟨⟨opened, ⟨?_, ?_, fits.quiet⟩, later⟩, ?_, ?_⟩
      · intro shut
        rw [opened] at shut
        contradiction
      · intro past
        have shut := (fits.used past).1
        rw [opened] at shut
        contradiction
      · rw [Chain.answer, Chain.answer, List.append_assoc]
      · rw [Chain.calls, Chain.calls, List.append_assoc]
    · contradiction

/-- Nothing changes behind a writer that exits when all has come. -/
theorem Chain.close_kept {chain : Chain σ} (sound : chain.Sound false []) :
    chain.close.Sound true [] ∧ chain.close.answer [] = chain.answer [] ∧
      chain.close.calls [] = chain.calls [] := by
  cases chain with
  | sink content => exact ⟨trivial, rfl, rfl⟩
  | link stage pipe closed node next =>
    have ⟨opened, fits, later⟩ := sound
    refine ⟨⟨rfl, ⟨fun _ => rfl, ?_, fits.quiet⟩, later⟩, rfl, rfl⟩
    intro past
    exact ⟨rfl, (fits.used past).2⟩

/-- A step of the first program keeps what the file will hold, and is a call that was due. -/
theorem Chain.act_kept {chain next : Chain σ} {exited : Bool} {incoming : Bytes} {act : Act}
    (sound : chain.Sound exited incoming) (acted : chain.act capacity act = some next) :
    next.Sound exited incoming ∧ next.answer incoming = chain.answer incoming ∧
      next.calls incoming < chain.calls incoming := by
  cases chain with
  | sink => contradiction
  | link stage pipe closed node after =>
    obtain ⟨same, fits, later⟩ := sound
    cases act with
    | turn turn =>
      obtain ⟨⟨left, moved⟩, turned, rfl⟩ := Option.map_eq_some_iff.mp acted
      have ⟨kept, running, alive, rest, fewer⟩ := Node.turn_kept fits turned
      have status : decide (moved.phase = .exited) = decide (node.phase = .exited) := by
        rw [running, decide_eq_false alive]
        rfl
      refine ⟨⟨same, kept, ?_⟩, ?_, ?_⟩
      · rw [rest, status]
        exact later
      · rw [Chain.answer, Chain.answer, rest]
      · rw [Chain.calls, Chain.calls, rest]
        exact Nat.add_lt_add_right fewer _
    | write count =>
      rw [Chain.act] at acted
      split at acted
      · contradiction
      · rename_i some
        obtain ⟨filled, pushed, rfl⟩ := Option.map_eq_some_iff.mp acted
        have alive : decide (node.phase = .exited) = false := by
          apply decide_eq_false
          intro past
          rw [fits.quiet past, List.take_nil] at some
          contradiction
        have split : node.rest stage (pipe ++ incoming) = node.pending.take count ++
            Node.rest stage { node with pending := node.pending.drop count } (pipe ++ incoming) := by
          simp only [Node.rest, ← List.append_assoc, List.take_append_drop]
        have written := List.length_pos_iff.mpr some
        rw [alive, split] at later
        have ⟨kept, answer, calls⟩ := Chain.push_kept later pushed
        refine ⟨⟨same, ⟨fits.shut, fits.used, ?_⟩, ?_⟩, ?_, ?_⟩
        · intro past
          rw [fits.quiet past, List.drop_nil]
        · rw [alive]
          exact kept
        · rw [Chain.answer, Chain.answer, split, answer]
        · have due : Node.due { node with pending := node.pending.drop count } (pipe ++ incoming) =
              node.due (pipe ++ incoming) := rfl
          rw [Chain.calls, Chain.calls, Node.calls, Node.calls, calls, split, due,
            List.length_append]
          omega
    | exit =>
      rw [Chain.act] at acted
      split at acted
      · rename_i ends
        obtain ⟨ended, written⟩ := ends
        cases acted
        have past : node.phase ≠ .running := by
          rw [ended]
          decide
        have alive : decide (node.phase = .exited) = false := by
          rw [ended]
          rfl
        have none : node.rest stage (pipe ++ incoming) = [] := by
          rw [Node.rest, written, (fits.used past).2.2, if_neg past]
          rfl
        have gone : Node.rest stage { node with phase := .exited } (pipe ++ incoming) = [] := by
          simp [Node.rest, written, (fits.used past).2.2]
        rw [alive, none] at later
        have ⟨kept, answer, calls⟩ := Chain.close_kept later
        refine ⟨⟨same, ⟨fits.shut, fun _ => fits.used past, fun _ => written⟩, ?_⟩, ?_, ?_⟩
        · rw [gone]
          exact kept
        · rw [Chain.answer, Chain.answer, none, gone, answer]
        · have due : node.due (pipe ++ incoming) = 1 := by rw [Node.due, ended]
          have done : Node.due { node with phase := .exited } (pipe ++ incoming) = 0 := rfl
          rw [Chain.calls, Chain.calls, Node.calls, Node.calls, none, gone, calls, due, done]
          omega
      · contradiction

/-- A step of any program keeps what the file will hold, and is a call that was due. -/
theorem Chain.step_kept {position : Nat} {act : Act} :
    ∀ {chain next : Chain σ} {exited : Bool} {incoming : Bytes}, chain.Sound exited incoming →
      chain.step capacity (position, act) = some next →
        next.Sound exited incoming ∧ next.answer incoming = chain.answer incoming ∧
          next.calls incoming < chain.calls incoming := by
  induction position with
  | zero =>
    intro chain next exited incoming sound stepped
    rw [Chain.step] at stepped
    exact Chain.act_kept sound stepped
  | succ position ih =>
    intro chain next exited incoming sound stepped
    cases chain with
    | sink => contradiction
    | link stage pipe closed node after =>
      obtain ⟨moved, deeper, rfl⟩ := Option.map_eq_some_iff.mp stepped
      have ⟨same, fits, later⟩ := sound
      have ⟨kept, answer, fewer⟩ := ih later deeper
      refine ⟨⟨same, fits, kept⟩, answer, ?_⟩
      rw [Chain.calls, Chain.calls]
      omega

end Kept

/-! ## Who can move -/

section Stuck

variable {σ : Type} {capacity : Nat}

/-- No program can take a step. -/
def Chain.Stuck (capacity : Nat) (chain : Chain σ) : Prop :=
  ∀ event, chain.step capacity event = none

/-- When no program can take a step, none can behind the first. -/
theorem Chain.Stuck.next {stage : Stage σ} {pipe : Bytes} {closed : Bool} {node : Node σ}
    {next : Chain σ} (stuck : (Chain.link stage pipe closed node next).Stuck capacity) :
    next.Stuck capacity :=
  fun event => Option.map_eq_none_iff.mp (stuck (event.1 + 1, event.2))

/-- A program in a `write` can go on when the pipe behind it is empty. -/
theorem Chain.Stuck.written {stage : Stage σ} {pipe : Bytes} {closed : Bool} {node : Node σ}
    {next : Chain σ} (stuck : (Chain.link stage pipe closed node next).Stuck capacity)
    (positive : 0 < capacity) (empty : next.pipe = []) : node.pending = [] := by
  by_contra filled
  have nonempty : node.pending.take 1 ≠ [] := by
    intro gone
    rw [List.take_eq_nil_iff] at gone
    exact gone.elim Nat.one_ne_zero filled
  have room : ∃ after, next.push capacity (node.pending.take 1) = some after := by
    cases next with
    | sink content => exact ⟨_, rfl⟩
    | link stage pipe closed node next =>
      refine ⟨_, if_pos ?_⟩
      rw [show pipe = [] from empty, List.length_nil, List.length_take]
      omega
  obtain ⟨after, pushed⟩ := room
  have moved : (Chain.link stage pipe closed node next).step capacity (0, .write 1) =
      some (.link stage pipe closed { node with pending := node.pending.drop 1 } after) := by
    rw [Chain.step, Chain.act, if_neg nonempty, pushed]
    rfl
  rw [stuck] at moved
  contradiction

/-- A program that is in no `write` can go on when a line or a byte is there. -/
theorem Chain.Stuck.unread {stage : Stage σ} {pipe : Bytes} {closed : Bool} {node : Node σ}
    {next : Chain σ} (stuck : (Chain.link stage pipe closed node next).Stuck capacity)
    (running : node.phase = .running) (written : node.pending = []) :
    lf ∉ node.buf ∧ pipe = [] := by
  have still (turn : Turn) : node.turn stage pipe closed turn = none :=
    Option.map_eq_none_iff.mp (stuck (0, .turn turn))
  have whole : lf ∉ node.buf := by
    have handled := still (.handle 0)
    rw [Node.turn, if_pos ⟨running, written⟩] at handled
    exact not_mem_of_cutAt (Option.map_eq_none_iff.mp handled)
  refine ⟨whole, ?_⟩
  by_contra filled
  have nonempty : pipe.take 1 ≠ [] := by
    intro gone
    rw [List.take_eq_nil_iff] at gone
    exact gone.elim Nat.one_ne_zero filled
  have read := still (.read 1)
  rw [Node.turn, if_pos ⟨running, written, whole, nonempty⟩] at read
  contradiction

/-- A program that can read does not let its pipe fill. -/
theorem Chain.Stuck.empty (positive : 0 < capacity) {chain : Chain σ} :
    ∀ {exited : Bool} {incoming : Bytes}, chain.Sound exited incoming → chain.Stuck capacity →
      chain.pipe = [] := by
  induction chain with
  | sink => exact fun _ _ => rfl
  | link stage pipe closed node next ih =>
    intro exited incoming sound stuck
    have ⟨same, fits, later⟩ := sound
    have written := stuck.written positive (ih later stuck.next)
    by_cases running : node.phase = .running
    · exact (stuck.unread running written).2
    · exact (fits.used running).2.1

/-- No program waits for another for good: when none can take a step, all have exited. -/
theorem Chain.Stuck.exited (positive : 0 < capacity) {chain : Chain σ} :
    chain.Sound true [] → chain.Stuck capacity → chain.Exited := by
  induction chain with
  | sink => exact fun _ _ => trivial
  | link stage pipe closed node next ih =>
    intro sound stuck
    have ⟨shut, fits, later⟩ := sound
    have written := stuck.written positive (stuck.next.empty positive later)
    cases phase : node.phase with
    | running =>
      have ⟨whole, empty⟩ := stuck.unread phase written
      have finished : node.turn stage pipe closed .finish = none :=
        Option.map_eq_none_iff.mp (stuck (0, .turn .finish))
      rw [Node.turn, if_pos ⟨phase, written, whole, empty, shut⟩] at finished
      contradiction
    | ended =>
      have exits := stuck (0, .exit)
      rw [Chain.step, Chain.act, if_pos ⟨phase, written⟩] at exits
      contradiction
    | exited =>
      have past : node.phase ≠ .running := by
        rw [phase]
        decide
      have gone : node.rest stage (pipe ++ []) = [] := by
        rw [Node.rest, written, (fits.used past).2.2, if_neg past]
        rfl
      rw [gone, decide_eq_true phase] at later
      exact ⟨phase, ih later stuck.next⟩

/-- The file is the front of what it will hold. -/
theorem Chain.content_prefix (chain : Chain σ) :
    ∀ incoming : Bytes, chain.content <+: chain.answer incoming := by
  induction chain with
  | sink content => exact fun incoming => List.prefix_append content incoming
  | link stage pipe closed node next ih => exact fun incoming => ih _

/-- When all programs have exited the file holds what it was to hold. -/
theorem Chain.Exited.content {chain : Chain σ} :
    chain.Sound true [] → chain.Exited → chain.content = chain.answer [] := by
  induction chain with
  | sink content =>
    intro _ _
    rw [Chain.content, Chain.answer, List.append_nil]
  | link stage pipe closed node next ih =>
    intro sound exited
    have ⟨shut, fits, later⟩ := sound
    have ⟨phase, deeper⟩ := exited
    have past : node.phase ≠ .running := by
      rw [phase]
      decide
    have gone : node.rest stage (pipe ++ []) = [] := by
      rw [Node.rest, fits.quiet phase, (fits.used past).2.2, if_neg past]
      rfl
    rw [gone, decide_eq_true phase] at later
    rw [Chain.content, Chain.answer, gone]
    exact ih later deeper

end Stuck

/-! ## Runs -/

section Runs

variable {σ : Type} {capacity : Nat}

/-- Whatever is scheduled, a chain makes no more calls than are due, and its file is an initial part
of what it was to hold from the start; where no program can take a step, all have exited and the
file is complete. -/
theorem Chain.settles (positive : 0 < capacity) {start last : Chain σ} (sound : start.Sound true [])
    {events : List (Nat × Act)} (ran : Runs.run (Chain.step capacity) start events = some last) :
    events.length ≤ start.calls [] ∧ last.content <+: start.answer [] ∧
      (last.Stuck capacity → last.Exited ∧ last.content = start.answer []) := by
  let Holds (chain : Chain σ) := chain.Sound true [] ∧ chain.answer [] = start.answer []
  have steps : ∀ (chain : Chain σ) (event : Nat × Act) (next : Chain σ), Holds chain →
      chain.step capacity event = some next →
        Holds next ∧ next.calls [] + 1 ≤ chain.calls [] + 0 := by
    intro chain event next holds stepped
    have ⟨kept, answer, fewer⟩ := Chain.step_kept holds.1 stepped
    exact ⟨⟨kept, answer.trans holds.2⟩, fewer⟩
  have begins : Holds start := ⟨sound, rfl⟩
  have counted := @Runs.countP_le _ _ (Chain.step capacity) Holds (fun chain => chain.calls [])
    (fun _ => true) (fun _ => false) steps events start last begins ran
  have holds : Holds last := Runs.stable
    (fun chain event next before stepped => (steps chain event next before stepped).1) begins ran
  refine ⟨?_, ?_, fun stuck => ?_⟩
  · rw [List.countP_true, List.countP_false, Function.const_apply] at counted
    omega
  · rw [← holds.2]
    exact last.content_prefix []
  · have exited := stuck.exited positive holds.1
    exact ⟨exited, (exited.content holds.1).trans holds.2⟩

/-- A program before its first call prints for the input that is to come. -/
theorem Chain.filter_eq {stage : Stage σ} {next : Chain σ} {incoming out : Bytes}
    (prints : stage.print stage.start (lines incoming) = out) :
    ((Chain.filter stage next).Sound false incoming ↔ next.Sound false out) ∧
      (Chain.filter stage next).answer incoming = next.answer out ∧
      (Chain.filter stage next).calls incoming =
        incoming.length + (lines incoming).length + 2 + out.length + next.calls out := by
  have rest : Node.rest stage ⟨.running, [], stage.start, [], []⟩ ([] ++ incoming) = out := prints
  have fits : Node.Sound [] false ⟨.running, [], stage.start, [], []⟩ incoming :=
    Node.sound_of_running rfl fun shut => by contradiction
  refine ⟨?_, ?_, ?_⟩
  · rw [Chain.filter, Chain.Sound, rest]
    exact ⟨fun sound => sound.2.2, fun sound => ⟨rfl, fits, sound⟩⟩
  · rw [Chain.filter, Chain.answer, rest]
  · rw [Chain.filter, Chain.calls, Node.calls, rest]
    rfl

/-- A program with a text to print sends it down the chain. -/
theorem Chain.printer_eq {stage : Stage σ} {text : Bytes} {next : Chain σ} :
    ((Chain.printer stage text next).Sound true [] ↔ next.Sound false text) ∧
      (Chain.printer stage text next).answer [] = next.answer text ∧
      (Chain.printer stage text next).calls [] = 1 + text.length + next.calls text := by
  have rest : Node.rest stage ⟨.ended, [], stage.start, [], text⟩ ([] ++ []) = text := by
    simp [Node.rest]
  have fits : Node.Sound [] true ⟨.ended, [], stage.start, [], text⟩ [] :=
    ⟨fun _ => rfl, fun _ => ⟨rfl, rfl, rfl⟩, fun past => by contradiction⟩
  refine ⟨?_, ?_, ?_⟩
  · rw [Chain.printer, Chain.Sound, rest]
    exact ⟨fun sound => sound.2.2, fun sound => ⟨rfl, fits, sound⟩⟩
  · rw [Chain.printer, Chain.answer, rest]
  · rw [Chain.printer, Chain.calls, Node.calls, rest]
    rfl

end Runs

end StreamPipeline.Pipes
