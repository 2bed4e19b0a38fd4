import StreamPipeline.Lib.Descriptors
import StreamPipeline.Lib.Runs

/-!
# The dispatcher and its children

`pd_pipeline_run` creates two pipes, forks the children and waits for them. The model steps the
dispatcher and every child on its own, with the deliveries of signals as events between the
steps, so a run is one interleaving. The dispatcher's place in `pd_pipeline_run`,
`pd_wait_children` and `pd_kill_children` is its program counter.
-/

namespace StreamPipeline.Dispatch

open Descriptors

/-- `pd_exit_code_t`, as far as `pd_pipeline_run` returns it. -/
inductive ExitCode where
  /-- `PD_EXIT_OK`. -/
  | ok
  /-- `PD_EXIT_SETUP_ERROR`. -/
  | setupError
  /-- `PD_EXIT_CHILD_ERROR`. -/
  | childError
  /-- `PD_EXIT_INTERRUPTED`. -/
  | interrupted
  deriving DecidableEq

/-- A status of `waitpid`. -/
inductive Status where
  /-- `WIFEXITED` with its code. -/
  | exited (code : Nat)
  /-- `WIFSIGNALED` with its signal. -/
  | signaled (signo : Nat)
  deriving DecidableEq

/-- `SIGTERM`. -/
def sigterm : Nat := 15

/-- `rc` once a child has ended. -/
def ExitCode.after (rc : ExitCode) : Status → ExitCode
  | .exited code => if code ≠ 0 then .childError else rc
  | .signaled _ => .childError

/-- The two pipes. -/
inductive Pipe where
  /-- `pipe1`: from `stream_merge` to `log_parse`. -/
  | first
  /-- `pipe2`: from `log_parse` to `clip_store`. -/
  | second
  deriving DecidableEq

/-- An open file. -/
inductive File where
  /-- A file the dispatcher was started with. -/
  | inherited (file : Nat)
  /-- `READ_END`. -/
  | readEnd (pipe : Pipe)
  /-- `WRITE_END`. -/
  | writeEnd (pipe : Pipe)
  deriving DecidableEq

/-- Where a forked process is. -/
inductive Phase where
  /-- Before the redirection of standard input. -/
  | dupStdin
  /-- Before the redirection of standard output. -/
  | dupStdout
  /-- In the loop over `close_fds`, with the rest of it. -/
  | closing (rest : List (Option Nat))
  /-- Before `execv`. -/
  | execv
  /-- In the applet. -/
  | running
  /-- Ended and not yet waited for. -/
  | ended (status : Status)
  deriving DecidableEq

/-- A forked process, with the arguments of `pd_spawn_child` it still needs. A descriptor of `-1`
is none. -/
structure Process where
  /-- What `fork` returned to the dispatcher. -/
  pid : Nat
  /-- It is no error and not the child's own return value. -/
  positive : 0 < pid
  /-- Where it is. -/
  phase : Phase
  /-- Its descriptors. -/
  table : Table File
  /-- `stdin_fd`. -/
  stdinFd : Option Nat
  /-- `stdout_fd`. -/
  stdoutFd : Option Nat
  /-- `close_fds`. -/
  closeFds : List (Option Nat)
  /-- `pd_kill_children` has sent it `SIGTERM`. -/
  termSent : Bool
  /-- A sent `SIGTERM` is not delivered yet. -/
  termPending : Bool
  deriving DecidableEq

/-- An entry of `children` with the process behind it. -/
inductive Child where
  /-- No process. -/
  | absent
  /-- A process that was not waited for. -/
  | alive (process : Process)
  /-- A process that was waited for. -/
  | reaped (process : Process) (status : Status)
  deriving DecidableEq

/-- `pid` of the entry. -/
def Child.pid : Child → Int
  | .absent => -1
  | .alive process => process.pid
  | .reaped _ _ => -1

/-- What an argument `stdin_fd` or `stdout_fd` names. -/
inductive Wire where
  /-- `STDIN_FILENO` or `STDOUT_FILENO`. -/
  | standard
  /-- The read end of a pipe. -/
  | readEnd (pipe : Pipe)
  /-- The write end of a pipe. -/
  | writeEnd (pipe : Pipe)
  deriving DecidableEq

/-- The arguments `stdin_fd` and `stdout_fd` of a child. -/
structure Wiring where
  stdin : Wire
  stdout : Wire
  deriving DecidableEq

/-- An entry of `children` with the arguments of its child. -/
structure Slot where
  /-- Its arguments. -/
  wiring : Wiring
  /-- Its process. -/
  child : Child
  deriving DecidableEq

/-- Where the dispatcher is. -/
inductive Pc where
  /-- Before `pipe(pipeline->pipe1)`. -/
  | pipe1
  /-- Before `pipe(pipeline->pipe2)`. -/
  | pipe2
  /-- Before the `fork` of a child. -/
  | spawn (index : Nat)
  /-- Before `close_pipe_fds`, with all children spawned. -/
  | closePipes
  /-- Before `pd_signal_interrupted`. -/
  | check
  /-- In `pd_wait_children`, before the round of a child. -/
  | wait (index : Nat) (rc : ExitCode)
  /-- In its `waitpid`. -/
  | blocked (index : Nat) (rc : ExitCode)
  /-- Behind a `waitpid` that failed with `EINTR`. -/
  | eintr (index : Nat) (rc : ExitCode)
  /-- Before `pd_pipeline_cleanup`. -/
  | cleanup (rc : ExitCode)
  /-- In the first loop of `pd_kill_children`, before the round of a child. -/
  | kill (index : Nat) (rc : ExitCode)
  /-- In the second loop, at the `waitpid` of a child. -/
  | reap (index : Nat) (rc : ExitCode)
  /-- `pd_pipeline_run` has returned. -/
  | returned (rc : ExitCode)
  deriving DecidableEq

/-- The dispatcher and its children. -/
structure World where
  /-- Where the dispatcher is. -/
  pc : Pc
  /-- Its descriptors. -/
  table : Table File
  /-- `pipe1`: the read end and the write end. -/
  pipe1 : Option Nat × Option Nat
  /-- `pipe2`. -/
  pipe2 : Option Nat × Option Nat
  /-- `children`. -/
  slots : List Slot
  /-- `interrupted`. -/
  interrupted : Bool
  deriving DecidableEq

/-- What happens next. -/
inductive Event where
  /-- The dispatcher goes on, and its system call succeeds. -/
  | dispatcher
  /-- `fork` succeeds in the dispatcher. -/
  | fork (pid : Nat)
  /-- `pipe` or `fork` fails in the dispatcher. -/
  | fails
  /-- `SIGINT` or `SIGTERM` is delivered to the dispatcher. -/
  | signal
  /-- A child goes on to `execv`, and its system call succeeds. -/
  | child (index : Nat)
  /-- A child ends: the applet, a failed system call before it, or a signal. -/
  | exits (index : Nat) (status : Status)
  /-- The `SIGTERM` of `pd_kill_children` is delivered to a child. -/
  | term (index : Nat)
  deriving DecidableEq

/-! ## A child -/

/-- `close_fds[i] >= 0`, and then `close`. -/
def closeFd (table : Table File) : Option Nat → Table File
  | none => table
  | some fd => close table fd

/-- A redirection of `pd_spawn_child`; nothing to do when the descriptor is the target. -/
def redirect (table : Table File) (fd : Option Nat) (target : Nat) : Option (Table File) :=
  if fd = some target then some table else fd.bind fun fd => dup2 table fd target

/-- The next step of a child in `pd_spawn_child`. -/
def Process.advance (process : Process) : Option Process :=
  match process.phase with
  | .dupStdin => (redirect process.table process.stdinFd 0).map fun table =>
      { process with table, phase := .dupStdout }
  | .dupStdout => (redirect process.table process.stdoutFd 1).map fun table =>
      { process with table, phase := .closing process.closeFds }
  | .closing [] => some { process with phase := .execv }
  | .closing (fd :: rest) =>
    some { process with table := closeFd process.table fd, phase := .closing rest }
  | .execv => some { process with phase := .running }
  | .running | .ended _ => none

/-- A process ends. -/
def Process.exit (process : Process) (status : Status) : Option Process :=
  match process.phase with
  | .ended _ => none
  | _ => some { process with phase := .ended status }

/-- `kill(pid, SIGTERM)`. -/
def Process.kill (process : Process) : Process :=
  { process with termSent := true, termPending := true }

/-- The delivery of a pending `SIGTERM`: the inherited handler only sets the flag of the child
until `execv` restores the default action. -/
def Process.deliverTerm (process : Process) : Option Process :=
  if process.termPending then
    match process.phase with
    | .ended _ => none
    | .running => some { process with termPending := false, phase := .ended (.signaled sigterm) }
    | _ => some { process with termPending := false }
  else none

/-- The status `waitpid` returns for an entry; none while it blocks. -/
def Child.waitStatus : Child → Option Status
  | .alive process =>
    match process.phase with
    | .ended status => some status
    | _ => none
  | _ => none

/-- An entry after its `waitpid`: `pid` is `-1`. -/
def Child.reap : Child → Status → Child
  | .alive process, status => .reaped process status
  | child, _ => child

/-! ## The dispatcher -/

namespace World

/-- The entry of a child. -/
def childAt (world : World) (index : Nat) : Option Child :=
  (world.slots[index]?).map Slot.child

/-- The world with the entry of a child replaced. -/
def setChild (world : World) (index : Nat) (child : Child) : World :=
  { world with slots := world.slots.modify index fun slot => { slot with child } }

/-- The dispatcher moved to another place. -/
def goto (world : World) (pc : Pc) : World := { world with pc }

/-- The descriptor an argument names. -/
def fdOf (world : World) (standard : Nat) : Wire → Option Nat
  | .standard => some standard
  | .readEnd .first => world.pipe1.1
  | .writeEnd .first => world.pipe1.2
  | .readEnd .second => world.pipe2.1
  | .writeEnd .second => world.pipe2.2

/-- `all_pipes`. -/
def allPipes (world : World) : List (Option Nat) :=
  [world.pipe1.1, world.pipe1.2, world.pipe2.1, world.pipe2.2]

/-- `close_pipe_fds`. -/
def closePipeFds (world : World) : World :=
  { world with
    table := world.allPipes.foldl closeFd world.table
    pipe1 := (none, none)
    pipe2 := (none, none) }

/-- The process of a successful `fork` in `pd_spawn_child`. -/
def spawned (world : World) (wiring : Wiring) (pid : Nat) (positive : 0 < pid) : Process where
  pid := pid
  positive := positive
  phase := .dupStdin
  table := world.table
  stdinFd := world.fdOf 0 wiring.stdin
  stdoutFd := world.fdOf 1 wiring.stdout
  closeFds := world.allPipes
  termSent := false
  termPending := false

/-- A successful `fork`. -/
def fork (world : World) (pid : Nat) : Option World :=
  match world.pc with
  | .spawn index =>
    match world.slots[index]? with
    | none => none
    | some slot =>
      if positive : 0 < pid then
        some ((world.setChild index (.alive (world.spawned slot.wiring pid positive))).goto
          (.spawn (index + 1)))
      else none
  | _ => none

/-- A failing `pipe` or `fork`. -/
def fail (world : World) : Option World :=
  match world.pc with
  | .pipe1 => some (world.goto (.returned .setupError))
  | .pipe2 => some (world.closePipeFds.goto (.returned .setupError))
  | .spawn index =>
    match world.slots[index]? with
    | none => none
    | some _ => some (world.goto (.cleanup .setupError))
  | _ => none

/-- The delivery of a signal to the dispatcher: `handle_signal` sets the flag, and a `waitpid`
that blocks returns `EINTR`. The loop of `pd_kill_children` then blocks again. -/
def deliver (world : World) : World :=
  { world with
    interrupted := true
    pc :=
      match world.pc with
      | .blocked index rc =>
        if ((world.childAt index).bind Child.waitStatus).isSome then .blocked index rc
        else .eintr index rc
      | pc => pc }

/-- `waitpid` in `pd_wait_children` for an entry whose `pid` is positive. -/
def waitFor (world : World) (index : Nat) (rc : ExitCode) (child : Child) : World :=
  match child.waitStatus with
  | some status =>
    (world.setChild index (child.reap status)).goto (.wait (index + 1) (rc.after status))
  | none => world.goto (.blocked index rc)

/-- The next step of the dispatcher that is no `fork`; none while it blocks. -/
def advance (world : World) : Option World :=
  match world.pc with
  | .pipe1 =>
    let ends := pipe world.table (.readEnd .first) (.writeEnd .first)
    some { world with table := ends.2, pipe1 := (some ends.1.1, some ends.1.2), pc := .pipe2 }
  | .pipe2 =>
    let ends := pipe world.table (.readEnd .second) (.writeEnd .second)
    some { world with table := ends.2, pipe2 := (some ends.1.1, some ends.1.2), pc := .spawn 0 }
  | .spawn index =>
    match world.childAt index with
    | none => some (world.goto .closePipes)
    | some _ => none
  | .closePipes => some (world.closePipeFds.goto .check)
  | .check =>
    some (world.goto (if world.interrupted then .cleanup .interrupted else .wait 0 .ok))
  | .wait index rc =>
    match world.childAt index with
    | none => some (world.goto (.returned rc))
    | some child =>
      if child.pid ≤ 0 then some (world.goto (.wait (index + 1) rc))
      else some (world.waitFor index rc child)
  | .blocked index rc =>
    match world.childAt index with
    | none => none
    | some child =>
      match child.waitStatus with
      | some _ => some (world.waitFor index rc child)
      | none => none
  | .eintr index _ =>
    -- `errno` is `EINTR`; any other failure of `waitpid` is counted against the child.
    some (world.goto
      (if world.interrupted then .kill 0 .interrupted else .wait (index + 1) .childError))
  | .cleanup rc => some (world.closePipeFds.goto (.kill 0 rc))
  | .kill index rc =>
    match world.childAt index with
    | none => some (world.goto (.reap 0 rc))
    | some (.alive process) =>
      some ((world.setChild index (.alive process.kill)).goto (.kill (index + 1) rc))
    | some _ => some (world.goto (.kill (index + 1) rc))
  | .reap index rc =>
    match world.childAt index with
    | none => some (world.goto (.returned rc))
    | some (.alive process) =>
      match (Child.alive process).waitStatus with
      | some status =>
        some ((world.setChild index (.reaped process status)).goto (.reap (index + 1) rc))
      | none => none
    | some _ => some (world.goto (.reap (index + 1) rc))
  | .returned _ => none

/-- A step of the process behind an entry. -/
def stepProcess (world : World) (index : Nat) (move : Process → Option Process) : Option World :=
  match world.childAt index with
  | some (.alive process) => (move process).map fun next => world.setChild index (.alive next)
  | _ => none

/-- One event. -/
def step (world : World) : Event → Option World
  | .dispatcher => world.advance
  | .fork pid => world.fork pid
  | .fails => world.fail
  | .signal => some world.deliver
  | .child index => world.stepProcess index Process.advance
  | .exits index status => world.stepProcess index fun process => process.exit status
  | .term index => world.stepProcess index Process.deliverTerm

/-- Before `pd_pipeline_run`, behind `pd_pipeline_init`: no child, and the given descriptors. -/
def start (wirings : List Wiring) (opened : List (Option Nat)) : World where
  pc := .pipe1
  table := opened.map fun file => file.map File.inherited
  pipe1 := (none, none)
  pipe2 := (none, none)
  slots := wirings.map fun wiring => ⟨wiring, .absent⟩
  interrupted := false

end World

/-- The children of `pd_pipeline_run`: `stream_merge`, `log_parse` and `clip_store`. -/
def pipelineWirings : List Wiring :=
  [⟨.standard, .writeEnd .first⟩, ⟨.readEnd .first, .writeEnd .second⟩,
    ⟨.readEnd .second, .standard⟩]

end StreamPipeline.Dispatch
