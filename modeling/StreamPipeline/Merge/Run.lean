import StreamPipeline.Merge.Fsm

/-!
# Runs of the clip state machine

A run is any list of calls from the reset state. The records of each emitted clip are read
off the answers alone: an accepted record joins the clip emitted next, except that a record
answered with an emission opens the clip after the emitted one. `clips_partition` says that
this attribution splits the accepted records exactly, that every snapshot describes its own
records without a wrapped sum, and that no call of the run wraps.
-/

namespace StreamPipeline.Merge

/-- `JSONL_MAX_SAFE_INTEGER` — the largest magnitude the integer getters pass on. -/
def maxSafeInteger : Nat := 9007199254740991

/-- The ranges `sm_reader_parse_line` establishes for every record it returns. -/
structure MetaRecord.Parsed (rec : MetaRecord) : Prop where
  valid : rec.valid = true
  seq : rec.seq.toNat ≤ maxSafeInteger
  offset : rec.offset.toNat ≤ maxSafeInteger
  length : rec.length.toNat ≤ maxSafeInteger
  tsMs : rec.tsMs.toInt.natAbs ≤ maxSafeInteger

instance (rec : MetaRecord) : Decidable rec.Parsed :=
  decidable_of_iff (rec.valid = true ∧ rec.seq.toNat ≤ maxSafeInteger ∧
      rec.offset.toNat ≤ maxSafeInteger ∧ rec.length.toNat ≤ maxSafeInteger ∧
      rec.tsMs.toInt.natAbs ≤ maxSafeInteger)
    ⟨fun ⟨valid, seq, offset, length, tsMs⟩ => ⟨valid, seq, offset, length, tsMs⟩,
      fun ⟨valid, seq, offset, length, tsMs⟩ => ⟨valid, seq, offset, length, tsMs⟩⟩

/-- A record as the reader builds it: `events` stays empty. -/
def MetaRecord.data (seq offset length : UInt64) (tsMs : Int64) : MetaRecord where
  kind := .ofBytes (ascii "data")
  seq := seq
  offset := offset
  length := length
  tsMs := tsMs
  events := .reset
  valid := true

/-- The arguments a caller can pass: parsed records and a clock that is never negative. -/
def Call.Admissible : Call → Prop
  | .processRecord rec _ nowMs => rec.Parsed ∧ 0 ≤ nowMs.toInt
  | .checkIdle _ nowMs => 0 ≤ nowMs.toInt
  | .flushFinal => True

instance : (call : Call) → Decidable call.Admissible
  | .processRecord rec _ nowMs => inferInstanceAs (Decidable (rec.Parsed ∧ 0 ≤ nowMs.toInt))
  | .checkIdle _ nowMs => inferInstanceAs (Decidable (0 ≤ nowMs.toInt))
  | .flushFinal => inferInstanceAs (Decidable True)

/-! ## Exact arithmetic -/

/-- An integer a signed 64-bit word represents. -/
def FitsInt64 (value : Int) : Prop := -2 ^ 63 ≤ value ∧ value < 2 ^ 63

/-- The additions of `start_clip` and `append_record` on the record's own fields are exact. -/
def MetaRecord.SumsExact (rec : MetaRecord) : Prop :=
  rec.seq.toNat + 1 < 2 ^ 64 ∧ rec.offset.toNat + rec.length.toNat < 2 ^ 64

/-- Every addition and subtraction the call performs in this state is exact. -/
def Call.Exact (fsm : Fsm) : Call → Prop
  | .processRecord rec clipMs _ =>
    rec.valid = true →
      (fsm.active = false → rec.SumsExact) ∧
      (fsm.active = true → ¬rec.seq < fsm.expectedSeq →
        rec.SumsExact ∧
        (rec.seq = fsm.expectedSeq → rec.offset = fsm.expectedOffset →
          FitsInt64 (rec.tsMs.toInt - fsm.startTsMs.toInt) ∧
          (¬clipMs ≤ rec.tsMs - fsm.startTsMs →
            fsm.totalLength.toNat + rec.length.toNat < 2 ^ 64)))
  | .checkIdle _ nowMs =>
    fsm.active = true → FitsInt64 (nowMs.toInt - fsm.lastChunkWallMs.toInt)
  | .flushFinal => True

/-! ## Attribution of records to clips -/

/-- The record a call adds to a clip, if any. -/
def acceptedRecord : Call × Answer → Option MetaRecord
  | (.processRecord rec _ _, answer) => if answer.action = .rejectLate then none else some rec
  | _ => none

/-- The accepted records of a trace, in order of arrival. -/
def accepted (trace : List (Call × Answer)) : List MetaRecord := trace.filterMap acceptedRecord

/-- The emitted clips of a trace, in order of emission. -/
def emitted (trace : List (Call × Answer)) : List ClipRecord :=
  trace.filterMap fun event => event.2.out

/-- The accepted records of a trace begin with the first event's. -/
theorem accepted_cons (event : Call × Answer) (rest : List (Call × Answer)) :
    accepted (event :: rest) = (acceptedRecord event).toList ++ accepted rest := by
  cases found : acceptedRecord event <;> simp [accepted, found]

/-- The emitted clips of a trace begin with the first event's. -/
theorem emitted_cons (event : Call × Answer) (rest : List (Call × Answer)) :
    emitted (event :: rest) = event.2.out.toList ++ emitted rest := by
  cases found : event.2.out <;> simp [emitted, found]

/-- Where an answer puts the records waiting for the next clip: the clip it closes, if any,
and the records still waiting afterwards. -/
def assign (pending : List MetaRecord) : Call × Answer → Option (List MetaRecord) × List MetaRecord
  | (.processRecord rec _ _, answer) =>
    match answer.action with
    | .none => (none, pending ++ [rec])
    | .rejectLate => (none, pending)
    | .emitComplete | .emitPartial => (some pending, [rec])
  | (_, answer) =>
    match answer.action with
    | .none | .rejectLate => (none, pending)
    | .emitComplete | .emitPartial => (some pending, [])

/-- The records of each emitted clip. Records still waiting at the end belong to no clip. -/
def clipRecords (pending : List MetaRecord) : List (Call × Answer) → List (List MetaRecord)
  | [] => []
  | event :: rest =>
    (assign pending event).1.toList ++ clipRecords (assign pending event).2 rest

/-- A snapshot describes a nonempty list of records, with the true sum of their lengths. -/
structure IsClipOf (records : List MetaRecord) (clip : ClipRecord) : Prop where
  active : clip.active = true
  nonempty : records ≠ []
  /-- The clip starts where its first record does. -/
  first : ∀ first ∈ records.head?,
    clip.startOffset = first.offset ∧ clip.startTsMs = first.tsMs
  /-- The clip ends where its last record does. -/
  last : ∀ last ∈ records.getLast?, clip.endTsMs = last.tsMs ∧
    clip.startOffset.toNat + clip.totalLength.toNat = last.offset.toNat + last.length.toNat
  /-- The length is the sum over the naturals. -/
  total : clip.totalLength.toNat = (records.map fun rec => rec.length.toNat).sum

/-! ## The invariant -/

/-- An active state that has collected exactly these records since it started its clip. -/
structure Collects (fsm : Fsm) (records : List MetaRecord) : Prop where
  clip : IsClipOf records fsm.snapshotClip
  /-- The next contiguous record follows the last one. -/
  next : ∀ last ∈ records.getLast?, fsm.expectedSeq.toNat = last.seq.toNat + 1 ∧
    fsm.expectedOffset.toNat = last.offset.toNat + last.length.toNat
  /-- Lengths telescope because offsets are contiguous. -/
  contiguous : fsm.startOffset.toNat + fsm.totalLength.toNat = fsm.expectedOffset.toNat
  bound : fsm.expectedOffset.toNat ≤ 2 * maxSafeInteger
  start : fsm.startTsMs.toInt.natAbs ≤ maxSafeInteger
  wall : 0 ≤ fsm.lastChunkWallMs.toInt

/-- The state has collected these records, or is inactive and there are none. -/
def Holds (fsm : Fsm) (pending : List MetaRecord) : Prop :=
  (fsm.active = false ∧ pending = []) ∨ Collects fsm pending

/-- An inactive state holds nothing. -/
theorem Holds.closed {fsm : Fsm} {pending : List MetaRecord} (holds : Holds fsm pending)
    (closed : fsm.active = false) : pending = [] := by
  rcases holds with ⟨_, none⟩ | collects
  · exact none
  · have opened : fsm.active = true := collects.clip.active
    rw [closed] at opened
    contradiction

/-- An active state has collected the records it holds. -/
theorem Holds.opened {fsm : Fsm} {pending : List MetaRecord} (holds : Holds fsm pending)
    (opened : fsm.active = true) : Collects fsm pending := by
  rcases holds with ⟨closed, _⟩ | collects
  · rw [opened] at closed
    contradiction
  · exact collects

/-- The reset state holds nothing. -/
theorem holds_reset : Holds Fsm.reset [] := .inl ⟨rfl, rfl⟩

/-- Parsed fields leave room for every addition on them. -/
theorem MetaRecord.Parsed.sumsExact {rec : MetaRecord} (parsed : rec.Parsed) :
    rec.SumsExact := by
  have seq := parsed.seq
  have offset := parsed.offset
  have length := parsed.length
  simp only [maxSafeInteger] at seq offset length
  constructor <;> omega

/-- The successor of a parsed sequence number does not wrap. -/
theorem MetaRecord.Parsed.seq_succ {rec : MetaRecord} (parsed : rec.Parsed) :
    (rec.seq + 1).toNat = rec.seq.toNat + 1 := by
  rw [UInt64.toNat_add]
  exact Nat.mod_eq_of_lt parsed.sumsExact.1

/-- The end offset of a parsed record does not wrap. -/
theorem MetaRecord.Parsed.offset_end {rec : MetaRecord} (parsed : rec.Parsed) :
    (rec.offset + rec.length).toNat = rec.offset.toNat + rec.length.toNat := by
  rw [UInt64.toNat_add]
  exact Nat.mod_eq_of_lt parsed.sumsExact.2

/-- Starting a clip collects the triggering record alone. -/
theorem startClip_collects {rec : MetaRecord} {nowMs : Int64} (parsed : rec.Parsed)
    (clock : 0 ≤ nowMs.toInt) : Collects (Fsm.startClip rec nowMs) [rec] where
  clip := {
    active := rfl
    nonempty := by simp
    first := by simp [Fsm.startClip, Fsm.snapshotClip]
    last := by simp [Fsm.startClip, Fsm.snapshotClip]
    total := by simp [Fsm.startClip, Fsm.snapshotClip] }
  next := by simp [Fsm.startClip, parsed.seq_succ, parsed.offset_end]
  contiguous := by simp [Fsm.startClip, parsed.offset_end]
  bound := by
    have offset := parsed.offset
    have length := parsed.length
    simp only [Fsm.startClip, parsed.offset_end]
    omega
  start := parsed.tsMs
  wall := clock

/-- A contiguous record fits after the lengths collected so far. -/
theorem Collects.length_fits {fsm : Fsm} {records : List MetaRecord} {rec : MetaRecord}
    (collects : Collects fsm records) (parsed : rec.Parsed) :
    fsm.totalLength.toNat + rec.length.toNat < 2 ^ 64 := by
  have contiguous := collects.contiguous
  have bound := collects.bound
  have length := parsed.length
  simp only [maxSafeInteger] at bound length
  omega

/-- Appending a contiguous record collects it after the earlier ones. -/
theorem appendRecord_collects {fsm : Fsm} {records : List MetaRecord} {rec : MetaRecord}
    {nowMs : Int64} (collects : Collects fsm records) (parsed : rec.Parsed)
    (adjacent : rec.offset = fsm.expectedOffset) (clock : 0 ≤ nowMs.toInt) :
    Collects (fsm.appendRecord rec nowMs) (records ++ [rec]) := by
  have clip := collects.clip
  have total : (fsm.totalLength + rec.length).toNat = fsm.totalLength.toNat + rec.length.toNat := by
    rw [UInt64.toNat_add]
    exact Nat.mod_eq_of_lt (collects.length_fits parsed)
  have ends : fsm.startOffset.toNat + (fsm.totalLength + rec.length).toNat =
      rec.offset.toNat + rec.length.toNat := by
    rw [total, adjacent, ← collects.contiguous, Nat.add_assoc]
  constructor
  · constructor
    · exact clip.active
    · simp
    · intro first found
      obtain ⟨head, tail, rfl⟩ := List.exists_cons_of_ne_nil clip.nonempty
      exact clip.first first (by simpa using found)
    · intro last found
      obtain rfl : rec = last := by simpa using found
      exact ⟨rfl, ends⟩
    · simp only [Fsm.appendRecord, Fsm.snapshotClip, total, List.map_append, List.sum_append]
      rw [← clip.total]
      simp [Fsm.snapshotClip]
  · intro last found
    obtain rfl : rec = last := by simpa using found
    exact ⟨parsed.seq_succ, parsed.offset_end⟩
  · simp only [Fsm.appendRecord, parsed.offset_end]
    exact ends
  · have offset := parsed.offset
    have length := parsed.length
    simp only [Fsm.appendRecord, parsed.offset_end]
    omega
  · exact collects.start
  · exact clock

/-! ## One call -/

/-- What one admissible call does to the records held: those held before, with the accepted
one, are the closed clip followed by those held after, and a closed clip is described by the
snapshot emitted with it. -/
structure Accounts (fsm : Fsm) (pending : List MetaRecord) (event : Call × Answer) : Prop where
  holds : Holds event.2.fsm (assign pending event).2
  records : pending ++ (acceptedRecord event).toList =
    (assign pending event).1.toList.flatten ++ (assign pending event).2
  clips : List.Forall₂ IsClipOf (assign pending event).1.toList event.2.out.toList

/-- Every admissible call accounts for the records it sees. -/
theorem answer_accounts {fsm : Fsm} {pending : List MetaRecord} {call : Call}
    (holds : Holds fsm pending) (admissible : call.Admissible) :
    Accounts fsm pending (call, fsm.answer call) := by
  cases call with
  | processRecord rec clipMs nowMs =>
    obtain ⟨parsed, clock⟩ := admissible
    have fresh : Holds (Fsm.startClip rec nowMs) [rec] := .inr (startClip_collects parsed clock)
    have rule := processRecord_rule fsm rec clipMs nowMs parsed.valid
    simp only [Fsm.answer]
    generalize fsm.processRecord rec clipMs nowMs = answer at rule ⊢
    cases rule with
    | start closed =>
      obtain rfl := holds.closed closed
      exact ⟨fresh, by simp [acceptedRecord, assign], by simp [assign]⟩
    | late opened behind =>
      exact ⟨holds, by simp [acceptedRecord, assign], by simp [assign]⟩
    | gap opened ahead broken =>
      exact ⟨fresh, by simp [acceptedRecord, assign],
        by simpa [assign] using (holds.opened opened).clip⟩
    | window opened next adjacent past =>
      exact ⟨fresh, by simp [acceptedRecord, assign],
        by simpa [assign] using (holds.opened opened).clip⟩
    | append opened next adjacent inside =>
      exact ⟨.inr (appendRecord_collects (holds.opened opened) parsed adjacent clock),
        by simp [acceptedRecord, assign], by simp [assign]⟩
  | checkIdle idleMs nowMs =>
    have rule := checkIdle_rule fsm idleMs nowMs
    simp only [Fsm.answer]
    generalize fsm.checkIdle idleMs nowMs = answer at rule ⊢
    cases rule with
    | keep recent => exact ⟨holds, by simp [acceptedRecord, assign], by simp [assign]⟩
    | expire opened stale =>
      exact ⟨holds_reset, by simp [acceptedRecord, assign],
        by simpa [assign] using (holds.opened opened).clip⟩
  | flushFinal =>
    have rule := flushFinal_rule fsm
    simp only [Fsm.answer]
    generalize fsm.flushFinal = answer at rule ⊢
    cases rule with
    | keep closed => exact ⟨holds, by simp [acceptedRecord, assign], by simp [assign]⟩
    | emit opened =>
      exact ⟨holds_reset, by simp [acceptedRecord, assign],
        by simpa [assign] using (holds.opened opened).clip⟩

/-- No admissible call wraps in a state that holds records. -/
theorem answer_exact {fsm : Fsm} {pending : List MetaRecord} {call : Call}
    (holds : Holds fsm pending) (admissible : call.Admissible) : call.Exact fsm := by
  cases call with
  | processRecord rec clipMs nowMs =>
    obtain ⟨parsed, _⟩ := admissible
    refine fun _ => ⟨fun _ => parsed.sumsExact, fun opened _ => ⟨parsed.sumsExact, ?_⟩⟩
    intro _ _
    refine ⟨?_, fun _ => (holds.opened opened).length_fits parsed⟩
    have start := (holds.opened opened).start
    have tsMs := parsed.tsMs
    simp only [maxSafeInteger] at start tsMs
    constructor <;> omega
  | checkIdle idleMs nowMs =>
    intro opened
    have clock : 0 ≤ nowMs.toInt := admissible
    have wall := (holds.opened opened).wall
    have upper := nowMs.toInt_lt
    have lower := fsm.lastChunkWallMs.toInt_lt
    constructor <;> omega
  | flushFinal => trivial

/-! ## Whole runs -/

/-- Whatever an admissible run does, the state it ends in holds some list of records. -/
theorem after_holds {calls : List Call} :
    ∀ {fsm : Fsm} {pending : List MetaRecord}, Holds fsm pending →
      (∀ call ∈ calls, call.Admissible) → ∃ held, Holds (fsm.after calls) held := by
  induction calls with
  | nil => exact fun holds _ => ⟨_, holds⟩
  | cons call calls ih =>
    intro fsm pending holds admissible
    exact ih (answer_accounts holds (admissible call (by simp))).holds
      fun later member => admissible later (by simp [member])

/-- From any state that holds records, a run that ends in a flush splits them and the accepted
records into its clips. -/
theorem trace_partition {calls : List Call} :
    ∀ {fsm : Fsm} {pending : List MetaRecord}, Holds fsm pending →
      (∀ call ∈ calls, call.Admissible) →
      (clipRecords pending (fsm.trace (calls ++ [.flushFinal]))).flatten =
        pending ++ accepted (fsm.trace (calls ++ [.flushFinal])) ∧
      List.Forall₂ IsClipOf (clipRecords pending (fsm.trace (calls ++ [.flushFinal])))
        (emitted (fsm.trace (calls ++ [.flushFinal]))) := by
  induction calls with
  | nil =>
    intro fsm pending holds _
    have rule := flushFinal_rule fsm
    simp only [List.nil_append, Fsm.trace, Fsm.answer]
    generalize fsm.flushFinal = answer at rule ⊢
    cases rule with
    | keep closed =>
      obtain rfl := holds.closed closed
      simp [clipRecords, assign, accepted, acceptedRecord, emitted]
    | emit opened =>
      simpa [clipRecords, assign, accepted, acceptedRecord, emitted]
        using (holds.opened opened).clip
  | cons call calls ih =>
    intro fsm pending holds admissible
    have step := answer_accounts holds (admissible call (by simp))
    obtain ⟨records, clips⟩ := ih step.holds fun later member => admissible later (by simp [member])
    simp only [List.cons_append, Fsm.trace, clipRecords, accepted_cons, emitted_cons]
    constructor
    · rw [List.flatten_append, records, ← List.append_assoc, ← step.records, List.append_assoc]
    · exact List.rel_append step.clips clips

/-- The accepted records of a flushed run are, in order, the records of its clips; every clip
describes its own; and no call of the run wraps. -/
theorem clips_partition (calls : List Call) (admissible : ∀ call ∈ calls, call.Admissible) :
    (clipRecords [] (Fsm.reset.trace (calls ++ [.flushFinal]))).flatten =
        accepted (Fsm.reset.trace (calls ++ [.flushFinal])) ∧
      List.Forall₂ IsClipOf (clipRecords [] (Fsm.reset.trace (calls ++ [.flushFinal])))
        (emitted (Fsm.reset.trace (calls ++ [.flushFinal]))) ∧
      ∀ before call rest, calls ++ [.flushFinal] = before ++ call :: rest →
        call.Exact (Fsm.reset.after before) := by
  obtain ⟨records, clips⟩ := trace_partition holds_reset admissible
  refine ⟨records, clips, fun before call rest split => ?_⟩
  have all : ∀ later ∈ before ++ call :: rest, later.Admissible := by
    rw [← split]
    intro later member
    rcases List.mem_append.mp member with earlier | flush
    · exact admissible later earlier
    · obtain rfl := List.mem_singleton.mp flush
      trivial
  obtain ⟨held, holds⟩ := after_holds holds_reset fun earlier member =>
    all earlier (List.mem_append_left _ member)
  exact answer_exact holds (all call (by simp))

/-- Three contiguous chunks over six seconds, with an idle check between them. -/
def threeChunks : List Call :=
  [.processRecord (.data 1 0 4 0) 5000 0, .processRecord (.data 2 4 4 3000) 5000 50,
    .checkIdle 10000 60, .processRecord (.data 3 8 4 6000) 5000 100]

/-- The partition at a run with one window cut. -/
theorem clips_partition_threeChunks :
    (clipRecords [] (Fsm.reset.trace (threeChunks ++ [.flushFinal]))).flatten =
        accepted (Fsm.reset.trace (threeChunks ++ [.flushFinal])) ∧
      List.Forall₂ IsClipOf (clipRecords [] (Fsm.reset.trace (threeChunks ++ [.flushFinal])))
        (emitted (Fsm.reset.trace (threeChunks ++ [.flushFinal]))) ∧
      ∀ before call rest, threeChunks ++ [.flushFinal] = before ++ call :: rest →
        call.Exact (Fsm.reset.after before) :=
  clips_partition threeChunks (by decide)

end StreamPipeline.Merge
