import StreamPipeline.Merge.Run

/-!
# Late and duplicate records

The guard against late records is the single field `expected_seq`. Every accepted record
raises it above its own sequence number, and nothing but a reset of the state lowers it. An
idle emission is such a reset: `sm_fsm_check_idle` forgets the expected number, so the next
record opens a clip whatever its sequence number.
-/

namespace StreamPipeline.Merge

/-- The clock reading a call is given. -/
def Call.nowMs? : Call → Option Int64
  | .processRecord _ _ nowMs => some nowMs
  | .checkIdle _ nowMs => some nowMs
  | .flushFinal => none

/-- The window or timeout a call is given is positive. -/
def Call.Positive : Call → Prop
  | .processRecord _ clipMs _ => 0 < clipMs
  | .checkIdle idleMs _ => 0 < idleMs
  | .flushFinal => True

instance : (call : Call) → Decidable call.Positive
  | .processRecord _ clipMs _ => inferInstanceAs (Decidable (0 < clipMs))
  | .checkIdle idleMs _ => inferInstanceAs (Decidable (0 < idleMs))
  | .flushFinal => inferInstanceAs (Decidable True)

/-- The call feeds a record or checks for idleness. -/
def Call.Feeds : Call → Prop
  | .flushFinal => False
  | _ => True

instance : (call : Call) → Decidable call.Feeds
  | .processRecord _ _ _ => inferInstanceAs (Decidable True)
  | .checkIdle _ _ => inferInstanceAs (Decidable True)
  | .flushFinal => inferInstanceAs (Decidable False)

/-- A run before its end: parsed records, positive parameters and a clock that never goes
back. -/
structure SteadyRun (calls : List Call) : Prop where
  admissible : ∀ call ∈ calls, call.Admissible
  feeds : ∀ call ∈ calls, call.Feeds
  positive : ∀ call ∈ calls, call.Positive
  clock : (calls.filterMap Call.nowMs?).Pairwise (· ≤ ·)

/-- An idle check that emitted the open clip. -/
def IdleEmission (event : Call × Answer) : Prop :=
  (∃ idleMs nowMs, event.1 = .checkIdle idleMs nowMs) ∧ event.2.action = .emitPartial

/-- An idle check, whatever it answers. -/
def IdleCheck (event : Call × Answer) : Prop := ∃ idleMs nowMs, event.1 = .checkIdle idleMs nowMs

/-- The state waits for a sequence number above this record's. -/
def Expects (fsm : Fsm) (rec : MetaRecord) : Prop :=
  fsm.active = true ∧ rec.seq.toNat < fsm.expectedSeq.toNat

/-- A state that restarts with a parsed record waits for the numbers above it. -/
theorem startClip_expects {rec : MetaRecord} (parsed : rec.Parsed) (nowMs : Int64)
    {earlier : MetaRecord} (order : earlier.seq.toNat ≤ rec.seq.toNat) :
    Expects (Fsm.startClip rec nowMs) earlier := by
  refine ⟨rfl, ?_⟩
  simp only [Fsm.startClip, parsed.seq_succ]
  omega

/-- Appending a parsed record raises the expected number the same way. -/
theorem appendRecord_expects {fsm : Fsm} {rec : MetaRecord} (parsed : rec.Parsed)
    (opened : fsm.active = true) (nowMs : Int64) {earlier : MetaRecord}
    (order : earlier.seq.toNat ≤ rec.seq.toNat) :
    Expects (fsm.appendRecord rec nowMs) earlier := by
  refine ⟨opened, ?_⟩
  simp only [Fsm.appendRecord, parsed.seq_succ]
  omega

/-- After a record is accepted the state waits for the numbers above it. -/
theorem accepted_expects {fsm : Fsm} {call : Call} {rec : MetaRecord}
    (admissible : call.Admissible) (taken : acceptedRecord (call, fsm.answer call) = some rec) :
    Expects (fsm.answer call).fsm rec := by
  cases call with
  | processRecord fed clipMs nowMs =>
    obtain ⟨parsed, _⟩ := admissible
    have rule := processRecord_rule fsm fed clipMs nowMs parsed.valid
    simp only [Fsm.answer] at taken ⊢
    generalize fsm.processRecord fed clipMs nowMs = answer at rule taken ⊢
    cases rule with
    | late => simp [acceptedRecord] at taken
    | start =>
      obtain rfl : fed = rec := by simpa [acceptedRecord] using taken
      exact startClip_expects parsed nowMs (Nat.le_refl _)
    | gap =>
      obtain rfl : fed = rec := by simpa [acceptedRecord] using taken
      exact startClip_expects parsed nowMs (Nat.le_refl _)
    | window =>
      obtain rfl : fed = rec := by simpa [acceptedRecord] using taken
      exact startClip_expects parsed nowMs (Nat.le_refl _)
    | append opened =>
      obtain rfl : fed = rec := by simpa [acceptedRecord] using taken
      exact appendRecord_expects parsed opened nowMs (Nat.le_refl _)
  | checkIdle idleMs nowMs => simp [acceptedRecord] at taken
  | flushFinal => simp [acceptedRecord] at taken

/-- A record accepted by a waiting state lies above the numbers it waits past. -/
theorem expects_accepted {fsm : Fsm} {call : Call} {earlier rec : MetaRecord}
    (admissible : call.Admissible) (waits : Expects fsm earlier)
    (taken : acceptedRecord (call, fsm.answer call) = some rec) : earlier.seq < rec.seq := by
  cases call with
  | processRecord fed clipMs nowMs =>
    obtain ⟨parsed, _⟩ := admissible
    obtain ⟨opened, below⟩ := waits
    by_cases behind : fed.seq < fsm.expectedSeq
    · simp [acceptedRecord, Fsm.answer, Fsm.processRecord, parsed.valid, opened, behind] at taken
    · have same : fed = rec := by
        simp only [acceptedRecord] at taken
        split at taken
        · contradiction
        · exact Option.some.inj taken
      rw [UInt64.lt_iff_toNat_lt] at behind ⊢
      rw [← same]
      omega
  | checkIdle idleMs nowMs => simp [acceptedRecord] at taken
  | flushFinal => simp [acceptedRecord] at taken

/-- Only an idle emission or a flush makes a waiting state forget. -/
theorem expects_kept {fsm : Fsm} {call : Call} {earlier : MetaRecord}
    (admissible : call.Admissible) (feeds : call.Feeds) (waits : Expects fsm earlier)
    (awake : ¬IdleEmission (call, fsm.answer call)) : Expects (fsm.answer call).fsm earlier := by
  cases call with
  | processRecord fed clipMs nowMs =>
    obtain ⟨parsed, _⟩ := admissible
    have order : ¬fed.seq < fsm.expectedSeq → earlier.seq.toNat ≤ fed.seq.toNat := by
      intro ahead
      have below := waits.2
      rw [UInt64.lt_iff_toNat_lt] at ahead
      omega
    have rule := processRecord_rule fsm fed clipMs nowMs parsed.valid
    simp only [Fsm.answer]
    generalize fsm.processRecord fed clipMs nowMs = answer at rule ⊢
    cases rule with
    | late => exact waits
    | start closed => exact absurd waits.1 (by simp [closed])
    | gap opened ahead => exact startClip_expects parsed nowMs (order ahead)
    | window opened next =>
      exact startClip_expects parsed nowMs (order (by simp [next]))
    | append opened next =>
      exact appendRecord_expects parsed opened nowMs (order (by simp [next]))
  | checkIdle idleMs nowMs =>
    have rule := checkIdle_rule fsm idleMs nowMs
    simp only [Fsm.answer] at awake ⊢
    generalize fsm.checkIdle idleMs nowMs = answer at rule awake ⊢
    cases rule with
    | keep => exact waits
    | expire => exact absurd ⟨⟨idleMs, nowMs, rfl⟩, rfl⟩ awake
  | flushFinal => exact feeds.elim

/-- A trace that splits comes from calls that split, the second part from the state between. -/
theorem trace_split {calls : List Call} : ∀ {fsm : Fsm} {before rest : List (Call × Answer)},
    fsm.trace calls = before ++ rest →
      ∃ first later, calls = first ++ later ∧ (fsm.after first).trace later = rest := by
  induction calls with
  | nil =>
    intro fsm before rest split
    obtain ⟨rfl, rfl⟩ := List.nil_eq_append_iff.mp split
    exact ⟨[], [], rfl, rfl⟩
  | cons call calls ih =>
    intro fsm before rest split
    cases before with
    | nil => exact ⟨[], call :: calls, rfl, split⟩
    | cons event before =>
      obtain ⟨_, tail⟩ := List.cons.inj split
      obtain ⟨first, later, rfl, same⟩ := ih tail
      exact ⟨call :: first, later, rfl, same⟩

/-- From a waiting state, a record accepted before any idle emission lies above. -/
theorem waiting_accepts_above {calls : List Call} : ∀ {fsm : Fsm} {earlier rec : MetaRecord}
    {between after : List (Call × Answer)} {event : Call × Answer}, Expects fsm earlier →
      (∀ call ∈ calls, call.Admissible ∧ call.Feeds) →
      fsm.trace calls = between ++ event :: after → (∀ event ∈ between, ¬IdleEmission event) →
      acceptedRecord event = some rec → earlier.seq < rec.seq := by
  induction calls with
  | nil =>
    intro fsm earlier rec between after event _ _ split
    simp [Fsm.trace] at split
  | cons call calls ih =>
    intro fsm earlier rec between after event waits allowed split awake taken
    obtain ⟨admissible, feeds⟩ := allowed call (by simp)
    cases between with
    | nil =>
      obtain ⟨rfl, _⟩ := List.cons.inj split
      exact expects_accepted admissible waits taken
    | cons head between =>
      obtain ⟨rfl, tail⟩ := List.cons.inj split
      exact ih (expects_kept admissible feeds waits (awake _ (by simp)))
        (fun later member => allowed later (by simp [member])) tail
        (fun later member => awake later (by simp [member])) taken

/-- In the run of one trace, a record accepted after another one without an idle emission between
them lies above it. -/
theorem later_accepts_above {calls : List Call} (admissible : ∀ call ∈ calls, call.Admissible)
    (feeds : ∀ call ∈ calls, call.Feeds) {fsm : Fsm} {before between after : List (Call × Answer)}
    {first later : Call × Answer} {earlier rec : MetaRecord}
    (split : fsm.trace calls = before ++ first :: (between ++ later :: after))
    (awake : ∀ event ∈ between, ¬IdleEmission event) (took : acceptedRecord first = some earlier)
    (takes : acceptedRecord later = some rec) : earlier.seq < rec.seq := by
  obtain ⟨done, todo, rfl, same⟩ := trace_split split
  cases todo with
  | nil => simp [Fsm.trace] at same
  | cons call todo =>
    obtain ⟨rfl, tail⟩ := List.cons.inj same
    exact waiting_accepts_above (accepted_expects (admissible call (by simp)) took)
      (fun next member => ⟨admissible next (by simp [member]), feeds next (by simp [member])⟩)
      tail awake takes

/-- An idle emission leaves the reset state, from which the run goes on. -/
theorem idleEmission_resets {calls : List Call} {fsm : Fsm} {before rest : List (Call × Answer)}
    {idle : Call × Answer} (split : fsm.trace calls = before ++ idle :: rest)
    (emits : IdleEmission idle) :
    idle.2.fsm = .reset ∧ ∃ done todo, calls = done ++ todo ∧ Fsm.reset.trace todo = rest := by
  obtain ⟨done, todo, rfl, same⟩ := trace_split split
  cases todo with
  | nil => simp [Fsm.trace] at same
  | cons call todo =>
    obtain ⟨rfl, tail⟩ := List.cons.inj same
    obtain ⟨⟨idleMs, nowMs, rfl⟩, emission⟩ := emits
    have rule := checkIdle_rule (fsm.after done) idleMs nowMs
    simp only [Fsm.answer] at emission tail ⊢
    generalize (fsm.after done).checkIdle idleMs nowMs = answer at rule emission tail ⊢
    cases rule with
    | keep => contradiction
    | expire => exact ⟨rfl, done ++ [.checkIdle idleMs nowMs], todo, by simp, tail⟩

/-- From the reset state the first record opens a clip, however many idle checks come before it. -/
theorem reset_starts {calls : List Call} {checks after : List (Call × Answer)}
    {next : Call × Answer} {rec : MetaRecord} {clipMs nowMs : Int64}
    (admissible : ∀ call ∈ calls, call.Admissible)
    (split : Fsm.reset.trace calls = checks ++ next :: after)
    (idle : ∀ event ∈ checks, IdleCheck event) (fed : next.1 = .processRecord rec clipMs nowMs) :
    next.2 = ⟨Fsm.startClip rec nowMs, .none, none⟩ := by
  induction checks generalizing calls with
  | nil =>
    cases calls with
    | nil => simp [Fsm.trace] at split
    | cons call calls =>
      obtain ⟨rfl, -⟩ := List.cons.inj split
      obtain rfl : call = _ := fed
      obtain ⟨parsed, -⟩ := admissible _ List.mem_cons_self
      simp [Fsm.answer, Fsm.processRecord, Fsm.reset, parsed.valid]
  | cons check checks ih =>
    cases calls with
    | nil => simp [Fsm.trace] at split
    | cons call calls =>
      obtain ⟨rfl, tail⟩ := List.cons.inj split
      obtain ⟨idleMs, later, rfl⟩ : IdleCheck (call, _) := idle _ List.mem_cons_self
      exact ih (fun call member => admissible call (by simp [member])) tail
        (fun event member => idle event (by simp [member]))

/-- Between two idle emissions the sequence numbers of accepted records strictly increase: a
record accepted after another one, with no idle emission between them, lies above it. An idle
emission leaves the reset state, and the next record opens a clip whatever its number. -/
theorem accepted_increase_between_idle (calls : List Call)
    (admissible : ∀ call ∈ calls, call.Admissible) (feeds : ∀ call ∈ calls, call.Feeds) :
    (∀ (before between after : List (Call × Answer)) (first later : Call × Answer)
        (earlier rec : MetaRecord),
      Fsm.reset.trace calls = before ++ first :: (between ++ later :: after) →
      (∀ event ∈ between, ¬IdleEmission event) → acceptedRecord first = some earlier →
      acceptedRecord later = some rec → earlier.seq < rec.seq) ∧
    ∀ (before rest : List (Call × Answer)) (idle : Call × Answer),
      Fsm.reset.trace calls = before ++ idle :: rest → IdleEmission idle →
      idle.2.fsm = .reset ∧
      ∀ (checks after : List (Call × Answer)) (next : Call × Answer) (rec : MetaRecord)
          (clipMs nowMs : Int64),
        rest = checks ++ next :: after → (∀ event ∈ checks, IdleCheck event) →
        next.1 = .processRecord rec clipMs nowMs →
        next.2 = ⟨Fsm.startClip rec nowMs, .none, none⟩ ∧ acceptedRecord next = some rec := by
  constructor
  · intro before between after first later earlier rec split awake took takes
    exact later_accepts_above admissible feeds split awake took takes
  · intro before rest idle split emits
    obtain ⟨reset, done, todo, rfl, goesOn⟩ := idleEmission_resets split emits
    refine ⟨reset, ?_⟩
    rintro checks after ⟨call, answer⟩ rec clipMs nowMs rfl quiet rfl
    have opened := reset_starts (fun call member => admissible call (by simp [member])) goesOn
      quiet rfl
    refine ⟨opened, ?_⟩
    dsimp only at opened
    rw [opened]
    rfl

/-- The first and the last chunk of a run whose idle check emits nothing. -/
theorem accepted_increase_threeChunks :
    (MetaRecord.data 1 0 4 0).seq < (MetaRecord.data 3 8 4 6000).seq :=
  (accepted_increase_between_idle threeChunks (by decide) (by decide)).1 []
    ((Fsm.reset.trace threeChunks).drop 1 |>.take 2) [] _ _ _ _ rfl
    (by
      intro event member
      rintro ⟨⟨idleMs, nowMs, check⟩, emission⟩
      have kept : ∀ event ∈ ((Fsm.reset.trace threeChunks).drop 1 |>.take 2),
          event.2.action = .none := by decide
      rw [kept event member] at emission
      contradiction)
    rfl rfl

/-- One chunk, an idle timeout, and the same chunk delivered again. -/
def redelivered : List Call :=
  [.processRecord (.data 1 0 100 1000) 5000 100, .checkIdle 2000 3000,
    .processRecord (.data 1 0 100 1000) 5000 3100]

/-- Accepted sequence numbers do not increase over a whole run: the redelivered chunk enters a
second clip. -/
theorem redelivered_after_idle : ¬∀ calls, SteadyRun calls →
    ((accepted (Fsm.reset.trace calls)).map MetaRecord.seq).Pairwise (· < ·) := by
  intro claimed
  have increasing := claimed redelivered ⟨by decide, by decide, by decide, by decide⟩
  revert increasing
  decide

end StreamPipeline.Merge
