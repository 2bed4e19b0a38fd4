import StreamPipeline.Merge.Drain
import StreamPipeline.Merge.Handoff
import StreamPipeline.Merge.Segments

/-!
# What `stream_merge` prints

The ledger of a run lists the calls of the state machine so far. It accounts for the state, for
every byte printed, and for the records of the lines handed on. Where the program returns without
an error, the final flush closes the ledger, and the clips printed partition the records taken
from the meta file.
-/

namespace StreamPipeline.Merge

open Codec

/-- The record of a call. -/
def Call.record? : Call → Option MetaRecord
  | .processRecord rec _ _ => some rec
  | _ => none

/-- The call has the times of the session. -/
def Call.Of (session : Session) : Call → Prop
  | .processRecord _ clipMs _ => clipMs = session.clipMs
  | .checkIdle idleMs _ => idleMs = session.idleMs
  | .flushFinal => True

section Ledger

variable (cjson : CJson) (session : Session)

/-- The bytes an answer prints; none when printing fails. -/
def printedText (answer : Answer) : Bytes := (handleAction cjson session answer).getD []

/-- The calls of a run with the clips they close all printed. -/
structure Ledger (calls : List Call) (out : Bytes) (handed : List Bytes) : Prop where
  admissible : ∀ call ∈ calls, call.Admissible
  times : ∀ call ∈ calls, call.Of session
  printed : ∀ event ∈ Fsm.reset.trace calls, (handleAction cjson session event.2).isSome = true
  output : out = (Fsm.reset.trace calls).flatMap fun event => printedText cjson session event.2
  records : calls.filterMap Call.record? = handed.flatMap (fedBy cjson)

/-- The state and what was printed and handed on are accounted for. -/
def Kept (fsm : Fsm) (out : Bytes) (handed : List Bytes) : Prop :=
  ∃ calls, Fsm.reset.after calls = fsm ∧ Ledger cjson session calls out handed

/-- What the ledger accounts for where the merger stands. An error leaves the last line out. -/
def Merger.Accounted (merger : Merger) : Prop :=
  match merger.pc with
  | .start | .watchingDir | .checking | .opening _ | .waiting | .consuming _ | .reopening
  | .watchingMeta _ => merger.fsm = .reset ∧ merger.out = [] ∧ merger.handed = []
  | .returned 0 => ∃ calls, Ledger cjson session (calls ++ [.flushFinal]) merger.out merger.handed
  | .returned _ => True
  | _ => Kept cjson session merger.fsm merger.out merger.handed

end Ledger

/-- The trace of one more call. -/
theorem trace_concat (fsm : Fsm) (calls : List Call) (call : Call) :
    fsm.trace (calls ++ [call]) =
      fsm.trace calls ++ [(call, (fsm.after calls).answer call)] := by
  induction calls generalizing fsm with
  | nil => rfl
  | cons first calls ih =>
    rw [List.cons_append, Fsm.trace, ih]
    rfl

/-- The state after one more call. -/
theorem after_concat (fsm : Fsm) (calls : List Call) (call : Call) :
    fsm.after (calls ++ [call]) = ((fsm.after calls).answer call).fsm := by
  rw [Fsm.after, List.foldl_append]
  rfl

section Steps

variable {cjson : CJson} {session : Session}

/-- The empty ledger. -/
theorem ledger_nil : Ledger cjson session [] [] [] where
  admissible := by simp
  times := by simp
  printed := by simp [Fsm.trace]
  output := rfl
  records := rfl

/-- One more call that prints what it closes. -/
theorem Ledger.call {calls : List Call} {out printed : Bytes} {handed : List Bytes}
    (ledger : Ledger cjson session calls out handed) (call : Call) (lines : List Bytes)
    (admissible : call.Admissible) (same : call.Of session)
    (prints : handleAction cjson session ((Fsm.reset.after calls).answer call) = some printed)
    (records : call.record?.toList = lines.flatMap (fedBy cjson)) :
    Ledger cjson session (calls ++ [call]) (out ++ printed) (handed ++ lines) where
  admissible := List.forall_mem_append.mpr ⟨ledger.admissible, by simpa using admissible⟩
  times := List.forall_mem_append.mpr ⟨ledger.times, by simpa using same⟩
  printed := by
    rw [trace_concat]
    exact List.forall_mem_append.mpr ⟨ledger.printed, by simp [prints]⟩
  output := by
    have text : printedText cjson session ((Fsm.reset.after calls).answer call) = printed := by
      rw [printedText, prints]
      rfl
    rw [trace_concat, List.flatMap_append, ← ledger.output, List.flatMap_singleton, text]
  records := by
    rw [List.filterMap_append, ledger.records, List.flatMap_append, ← records]
    cases found : call.record? <;> simp [found]

/-- A line that feeds nothing. -/
theorem Ledger.line {calls : List Call} {out : Bytes} {handed : List Bytes} {line : Bytes}
    (ledger : Ledger cjson session calls out handed) (nothing : fedBy cjson line = []) :
    Ledger cjson session calls out (handed ++ [line]) :=
  { ledger with
    records := by rw [ledger.records, List.flatMap_append, List.flatMap_singleton, nothing,
      List.append_nil] }

/-- A line that is handed on. -/
theorem Kept.line {fsm next : Fsm} {out printed line : Bytes} {handed : List Bytes}
    {nowMs : Int64} (kept : Kept cjson session fsm out handed) (timely : 0 ≤ nowMs.toInt)
    (taken : handleLine cjson session fsm nowMs line = some (next, printed)) :
    Kept cjson session next (out ++ printed) (handed ++ [line]) := by
  have ⟨calls, reached, ledger⟩ := kept
  have silent (nothing : fedBy cjson line = []) :
      Kept cjson session fsm (out ++ []) (handed ++ [line]) := by
    rw [List.append_nil]
    exact ⟨calls, reached, ledger.line nothing⟩
  unfold handleLine at taken
  split at taken
  · rename_i unparsed
    cases taken
    exact silent (by rw [fedBy, unparsed])
  · rename_i rec parsed
    split at taken
    · rename_i data
      have fed : fedBy cjson line = [rec] := by
        rw [fedBy, parsed]
        exact if_pos data
      have ⟨text, prints, pair⟩ := Option.map_eq_some_iff.mp taken
      cases pair
      refine ⟨calls ++ [.processRecord rec session.clipMs nowMs], ?_, ?_⟩
      · rw [after_concat, reached]
        rfl
      · apply ledger.call (.processRecord rec session.clipMs nowMs) [line]
          ⟨parsed_of_smReaderParseLine parsed, timely⟩ rfl
        · rw [reached]
          exact prints
        · rw [List.flatMap_singleton, fed]
          rfl
    · rename_i other
      cases taken
      exact silent (by rw [fedBy, parsed]; exact if_neg other)

/-- An idle check. -/
theorem Kept.idle {fsm next : Fsm} {out printed : Bytes} {handed : List Bytes} {nowMs : Int64}
    (kept : Kept cjson session fsm out handed) (timely : 0 ≤ nowMs.toInt)
    (checked : checkIdle cjson session fsm nowMs = some (next, printed)) :
    Kept cjson session next (out ++ printed) handed := by
  have ⟨calls, reached, ledger⟩ := kept
  have ⟨text, prints, pair⟩ := Option.map_eq_some_iff.mp checked
  cases pair
  refine ⟨calls ++ [.checkIdle session.idleMs nowMs], ?_, ?_⟩
  · rw [after_concat, reached]
    rfl
  · have longer := ledger.call (.checkIdle session.idleMs nowMs) [] timely rfl
      (by rw [reached]; exact prints) rfl
    rwa [List.append_nil] at longer

/-- The final flush. -/
theorem Kept.flush {fsm next : Fsm} {out printed : Bytes} {handed : List Bytes}
    (kept : Kept cjson session fsm out handed)
    (flushed : flushFinal cjson session fsm = some (next, printed)) :
    ∃ calls, Ledger cjson session (calls ++ [.flushFinal]) (out ++ printed) handed := by
  have ⟨calls, reached, ledger⟩ := kept
  have ⟨text, prints, pair⟩ := Option.map_eq_some_iff.mp flushed
  cases pair
  have longer := ledger.call .flushFinal [] trivial trivial (by rw [reached]; exact prints) rfl
  rw [List.append_nil] at longer
  exact ⟨calls, longer⟩

/-- Nothing was printed before the first drain. -/
theorem kept_reset : Kept cjson session .reset [] [] := ⟨[], rfl, ledger_nil⟩

/-- An untouched merger returns with an empty ledger. -/
theorem closed_reset :
    ∃ calls, Ledger cjson session (calls ++ [.flushFinal]) [] [] :=
  @Kept.flush cjson session .reset .reset [] [] [] kept_reset rfl

/-- Splitting a line keeps the account. -/
theorem Merger.splitLine_accounted {merger : Merger} {nowMs : Int64} {resume : Resume}
    (here : merger.pc = .splitting resume) (timely : 0 ≤ nowMs.toInt)
    (kept : Kept cjson session merger.fsm merger.out merger.handed) :
    (merger.splitLine cjson session nowMs resume).Accounted cjson session := by
  obtain ⟨pc, position, metaBuf, fsm, out, handed⟩ := merger
  obtain rfl : pc = .splitting resume := here
  unfold Merger.splitLine
  split
  · cases resume with
    | loop saw =>
      cases saw with
      | false | true => exact kept
    | events dirReady =>
      cases dirReady with
      | false | true => exact kept
    | final => exact kept
  · split
    · exact kept
    · split
      · trivial
      · rename_i taken
        exact kept.line timely taken

/-- The next call of the merger keeps the account. -/
theorem Merger.advance_accounted {directory after : Directory} {merger next : Merger}
    {nowMs : Int64} (accounted : merger.Accounted cjson session) (timely : 0 ≤ nowMs.toInt)
    (moved : merger.advance cjson session nowMs directory = some (after, next)) :
    next.Accounted cjson session := by
  obtain ⟨pc, position, metaBuf, fsm, out, handed⟩ := merger
  have closes (untouched : fsm = .reset ∧ out = [] ∧ handed = []) :
      ∃ calls, Ledger cjson session (calls ++ [.flushFinal]) out handed := by
    obtain ⟨rfl, rfl, rfl⟩ := untouched
    exact closed_reset
  cases pc with
  | start =>
    simp only [Merger.advance] at moved
    split at moved <;> cases moved
    · exact accounted
    · trivial
  | waiting | reopening =>
    simp only [Merger.advance] at moved
    split at moved <;> cases moved
    · exact accounted
    · exact accounted
  | watchingDir | checking =>
    cases moved
    exact accounted
  | opening saw =>
    simp only [Merger.advance] at moved
    split at moved
    · cases moved
      exact accounted
    · split at moved <;> cases moved
      · exact closes accounted
      · exact accounted
  | consuming saw =>
    simp only [Merger.advance] at moved
    split at moved
    · contradiction
    · split at moved <;> cases moved
      · exact closes accounted
      · exact accounted
  | watchingMeta saw =>
    cases moved
    obtain ⟨rfl, rfl, rfl⟩ := accounted
    exact kept_reset
  | draining resume | consumingMeta dirReady | consumingDir saw =>
    simp only [Merger.advance] at moved
    split at moved
    · contradiction
    · cases moved
      exact accounted
  | splitting resume =>
    cases moved
    exact Merger.splitLine_accounted rfl timely accounted
  | polling =>
    simp only [Merger.advance] at moved
    split at moved
    · cases moved
      exact accounted
    · split at moved <;> cases moved
      · exact accounted
      · exact accounted
  | rechecking saw =>
    cases moved
    exact accounted
  | checkingIdle saw =>
    cases moved
    unfold Merger.printed
    split
    · trivial
    · rename_i checked
      have kept := accounted.idle timely checked
      cases saw with
      | false | true => exact kept
  | flushing =>
    cases moved
    unfold Merger.printed
    split
    · trivial
    · rename_i flushed
      exact accounted.flush flushed
  | returned => contradiction

/-- A read takes nothing from the account. -/
theorem Merger.take_accounted {directory after : Directory} {merger next : Merger} {count : Nat}
    (accounted : merger.Accounted cjson session)
    (moved : merger.take count directory = some (after, next)) :
    next.Accounted cjson session := by
  obtain ⟨pc, position, metaBuf, fsm, out, handed⟩ := merger
  cases pc with
  | start | watchingDir | checking | opening | waiting | reopening | watchingMeta | splitting
  | polling | rechecking | checkingIdle | flushing | returned => contradiction
  | consuming saw | consumingDir saw | consumingMeta dirReady | draining resume =>
    simp only [Merger.take] at moved
    split at moved
    · contradiction
    · cases moved
      exact accounted

/-- The clock of a step is not negative. -/
def Event.Timely : Event → Prop
  | .merger (.advance nowMs) => 0 ≤ nowMs.toInt
  | _ => True

instance : (event : Event) → Decidable event.Timely
  | .merger (.advance nowMs) => inferInstanceAs (Decidable (0 ≤ nowMs.toInt))
  | .merger (.take _) | .merger .expire | .writer _ | .other _ => .isTrue trivial

/-- A step of the system keeps the account. -/
theorem World.step_accounted {world next : World} {event : Event}
    (accounted : world.merger.Accounted cjson session) (timely : event.Timely)
    (stepped : world.step cjson session event = some next) :
    next.merger.Accounted cjson session := by
  cases event with
  | writer act =>
    obtain ⟨moved, _, same⟩ := Option.map_eq_some_iff.mp stepped
    rwa [← same]
  | other name =>
    rw [World.step] at stepped
    split at stepped
    · contradiction
    · rwa [← Option.some.inj stepped]
  | merger act =>
    obtain ⟨⟨after, merger⟩, moved, same⟩ := Option.map_eq_some_iff.mp stepped
    rw [← same]
    cases act with
    | advance nowMs => exact Merger.advance_accounted accounted timely moved
    | take count => exact Merger.take_accounted accounted moved
    | expire =>
      rw [MergerAct.perform] at moved
      split at moved
      · cases moved
        trivial
      · contradiction

end Steps

/-! ## Lines and clips -/

/-- Every clip a call closes is active, and the call says whether it is complete. -/
theorem answer_closes (fsm : Fsm) {call : Call} (admissible : call.Admissible) :
    ∀ clip ∈ (fsm.answer call).out, clip.active = true ∧
      ((fsm.answer call).action = .emitComplete ∨ (fsm.answer call).action = .emitPartial) := by
  cases call with
  | processRecord rec clipMs nowMs =>
    have rule := processRecord_rule fsm rec clipMs nowMs admissible.1.valid
    rw [Fsm.answer]
    generalize fsm.processRecord rec clipMs nowMs = answer at rule
    cases rule with
    | start | late | append => simp
    | gap opened => simpa [Fsm.snapshotClip] using opened
    | window opened => simpa [Fsm.snapshotClip] using opened
  | checkIdle idleMs nowMs =>
    have rule := checkIdle_rule fsm idleMs nowMs
    rw [Fsm.answer]
    generalize fsm.checkIdle idleMs nowMs = answer at rule
    cases rule with
    | keep => simp
    | expire opened => simpa [Fsm.snapshotClip] using opened
  | flushFinal =>
    have rule := flushFinal_rule fsm
    rw [Fsm.answer]
    generalize fsm.flushFinal = answer at rule
    cases rule with
    | keep => simp
    | emit opened => simpa [Fsm.snapshotClip] using opened

/-- The line of a clip with the action that closed it; empty when it cannot be printed. -/
def emissionText (cjson : CJson) (session : Session) (emission : Action × ClipRecord) : Bytes :=
  ((clipPath emission.2 session.src session.session).map fun path =>
    clipText cjson emission.2 session.session path (emission.1 = .emitComplete)).getD []

/-- What an answer prints is the line of the clip it closes. -/
theorem handleAction_answer (cjson : CJson) (session : Session) (fsm : Fsm) {call : Call}
    (admissible : call.Admissible) :
    printedText cjson session (fsm.answer call) =
        ((fsm.answer call).out.map fun clip => ((fsm.answer call).action, clip)).elim []
          (emissionText cjson session) ∧
      ((handleAction cjson session (fsm.answer call)).isSome = true →
        ∀ clip ∈ (fsm.answer call).out, (clipPath clip session.src session.session).isSome) := by
  have closes := answer_closes fsm admissible
  generalize fsm.answer call = answer at closes
  obtain ⟨after, action, out⟩ := answer
  cases out with
  | none => cases action <;> simp [printedText, handleAction]
  | some clip =>
    have ⟨active, closing⟩ := closes clip rfl
    rcases closing with rfl | rfl <;>
      simp [printedText, handleAction, emitClip, active, emissionText]

/-- What a run prints is the lines of the clips it emits. -/
theorem flatMap_printedText (cjson : CJson) (session : Session) {calls : List Call}
    (admissible : ∀ call ∈ calls, call.Admissible) (fsm : Fsm) :
    ((fsm.trace calls).flatMap fun event => printedText cjson session event.2) =
      (emissions (fsm.trace calls)).flatMap (emissionText cjson session) := by
  induction calls generalizing fsm with
  | nil => rfl
  | cons call calls ih =>
    have first := (handleAction_answer cjson session fsm (admissible call List.mem_cons_self)).1
    have later := ih fun other member => admissible other (List.mem_cons_of_mem call member)
    rw [Fsm.trace, List.flatMap_cons, emissions_cons, List.flatMap_append, later, first]
    cases (fsm.answer call).out <;> simp

/-- A run that prints all its clips has a path for each. -/
theorem clipPath_of_printed {cjson : CJson} {session : Session} {calls : List Call}
    (admissible : ∀ call ∈ calls, call.Admissible) {fsm : Fsm}
    (printed : ∀ event ∈ fsm.trace calls, (handleAction cjson session event.2).isSome = true) :
    ∀ clip ∈ emitted (fsm.trace calls),
      (clipPath clip session.src session.session).isSome = true := by
  induction calls generalizing fsm with
  | nil => simp [Fsm.trace, emitted]
  | cons call calls ih =>
    have first := (handleAction_answer cjson session fsm (admissible call List.mem_cons_self)).2
      (printed _ List.mem_cons_self)
    have later := @ih (fun other member => admissible other (List.mem_cons_of_mem call member))
      (fsm.answer call).fsm (fun event member => printed event (List.mem_cons_of_mem _ member))
    rw [Fsm.trace, emitted_cons, List.forall_mem_append]
    exact ⟨by simpa using first, later⟩

/-- The calls of a run that returned, up to the final flush, accounted for by the meta file and
standard output. -/
structure Account (cjson : CJson) (session : Session) (fileLines : List Bytes) (out : Bytes)
    (calls : List Call) : Prop where
  /-- Parsed records and times of the session. -/
  made : ∀ call ∈ calls ++ [.flushFinal], call.Admissible ∧ call.Of session
  /-- The records are those of the lines of the meta file. -/
  records : calls.filterMap Call.record? =
    (fileLines.filter fun line => line ≠ []).flatMap (fedBy cjson)
  /-- Every clip has a path. -/
  paths : ∀ clip ∈ emitted (Fsm.reset.trace (calls ++ [.flushFinal])),
    (clipPath clip session.src session.session).isSome = true
  /-- Standard output is the lines of the clips. -/
  output : out = (emissions (Fsm.reset.trace (calls ++ [.flushFinal]))).flatMap
    (emissionText cjson session)
  /-- The clips split the accepted records. -/
  partition : (clipRecords [] (Fsm.reset.trace (calls ++ [.flushFinal]))).flatten =
    accepted (Fsm.reset.trace (calls ++ [.flushFinal]))
  /-- Each clip describes its records. -/
  clips : List.Forall₂ IsClipOf (clipRecords [] (Fsm.reset.trace (calls ++ [.flushFinal])))
    (emitted (Fsm.reset.trace (calls ++ [.flushFinal])))

/-- A ledger closed by the final flush is an account of the lines handed on. -/
theorem Ledger.account {cjson : CJson} {session : Session} {calls : List Call} {out : Bytes}
    {handed fileLines : List Bytes}
    (ledger : Ledger cjson session (calls ++ [.flushFinal]) out handed)
    (merged : handed = fileLines.filter fun line => line ≠ []) :
    Account cjson session fileLines out calls := by
  have admissible : ∀ call ∈ calls, call.Admissible :=
    fun call member => ledger.admissible call (List.mem_append_left _ member)
  have split := trace_partition holds_reset admissible
  exact {
    made := fun call member => ⟨ledger.admissible call member, ledger.times call member⟩
    records := by
      rw [← merged, ← ledger.records, List.filterMap_append]
      simp [Call.record?]
    paths := clipPath_of_printed ledger.admissible ledger.printed
    output := by rw [ledger.output, flatMap_printedText cjson session ledger.admissible]
    partition := split.1
    clips := split.2 }

/-- Every attentive run keeps the account, and what it handed on is the meta file's lines when it
returned. -/
theorem accounted_of_run {cjson : CJson} {session : Session} {events : List Event} {last : World}
    (ran : Runs.run (World.step cjson session) World.initial events = some last)
    (timely : ∀ event ∈ events, event.Timely)
    (attentive : Runs.Along (World.step cjson session) World.Attentive World.initial events) :
    last.merger.Accounted cjson session ∧
      last.merger.Holds last.directory := by
  have inv := Runs.invariant (fun _ _ _ inv attentive stepped => World.Inv.step inv attentive stepped)
    World.inv_initial attentive ran
  have clock : Runs.Along (World.step cjson session) (fun _ event => event.Timely) World.initial
      events := by
    apply Runs.along_of_events
    intro before event after mid split _
    exact timely event (by simp [split])
  have start : World.initial.merger.Accounted cjson session := ⟨rfl, rfl, rfl⟩
  have accounted : last.merger.Accounted cjson session := Runs.invariant
    (fun _ _ _ accounted timely stepped => World.step_accounted accounted timely stepped) start clock
    ran
  exact ⟨accounted, inv.holds⟩

/-- The account of a run that returned without an error. -/
theorem Merger.Accounted.account {cjson : CJson} {session : Session} {merger : Merger}
    {directory : Directory} (accounted : merger.Accounted cjson session)
    (holds : merger.Holds directory) (returned : merger.pc = .returned 0) :
    ∃ calls, Account cjson session directory.fileLines merger.out calls := by
  rw [Merger.Holds, returned] at holds
  rw [Merger.Accounted, returned] at accounted
  obtain ⟨calls, ledger⟩ := accounted
  exact ⟨calls, ledger.account holds.2⟩

/-- In every attentive interleaving of the writer and `stream_merge` that ends with the status 0:
what was printed is one line for each clip, in order, and the clips split the records of the meta
file that were not late, each clip describing its own. -/
theorem returned_accounts (cjson : CJson) (session : Session) (events : List Event) (last : World)
    (ran : Runs.run (World.step cjson session) World.initial events = some last)
    (timely : ∀ event ∈ events, event.Timely)
    (attentive : Runs.Along (World.step cjson session) World.Attentive World.initial events)
    (returned : last.merger.pc = .returned 0) :
    ∃ calls, Account cjson session last.directory.fileLines last.merger.out calls := by
  have ⟨accounted, holds⟩ := accounted_of_run ran timely attentive
  exact accounted.account holds returned

/-- The account of a line read in two halves. -/
theorem returned_accounts_halfLine :
    ∃ calls, Account sampleJson shortSession (runEnd halfLine).directory.fileLines
      (runEnd halfLine).merger.out calls :=
  returned_accounts sampleJson shortSession halfLine (runEnd halfLine)
    (Runs.run_eq_getD (by decide +kernel) _) (by decide +kernel) (by decide +kernel)
    (by decide +kernel)

example : (runEnd halfLine).merger.out =
    ascii "\x7b\"type\":\"clip\",\"session_id\":\"s\",\"ts\":1,\"path\":\"d/s_1.bin\"," ++
      ascii "\"offset\":0,\"length\":8,\"complete\":true\x7d\n" := by decide +kernel

end StreamPipeline.Merge
