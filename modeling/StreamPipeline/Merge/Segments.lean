import StreamPipeline.Merge.Run

/-!
# The batch reference of the segmentation

The reference works on the whole input. A filter decides for every input whether its record is
dropped or taken and whether an idle check expires the open clip; a greedy cut then splits the
taken records into segments, each with the reason it was closed. `segmentation_greedy` says
that a run of the state machine emits exactly the segments of the reference, with the action
each reason calls for.
-/

namespace StreamPipeline.Merge

/-- One input of a run whose window length is fixed. -/
inductive Input where
  /-- A record with the clock at its arrival. -/
  | chunk (rec : MetaRecord) (nowMs : Int64)
  /-- An idle check with its timeout and the clock. -/
  | idle (idleMs nowMs : Int64)

/-- The arguments the callers can pass. -/
def Input.Admissible : Input → Prop
  | .chunk rec nowMs => rec.Parsed ∧ 0 ≤ nowMs.toInt
  | .idle _ nowMs => 0 ≤ nowMs.toInt

instance : (input : Input) → Decidable input.Admissible
  | .chunk rec nowMs => inferInstanceAs (Decidable (rec.Parsed ∧ 0 ≤ nowMs.toInt))
  | .idle _ nowMs => inferInstanceAs (Decidable (0 ≤ nowMs.toInt))

/-- The call an input stands for. -/
def Input.call (clipMs : Int64) : Input → Call
  | .chunk rec nowMs => .processRecord rec clipMs nowMs
  | .idle idleMs nowMs => .checkIdle idleMs nowMs

/-- The run of the code on these inputs, ended by the final flush. -/
def inputTrace (clipMs : Int64) (fsm : Fsm) (inputs : List Input) : List (Call × Answer) :=
  fsm.trace (inputs.map (Input.call clipMs) ++ [.flushFinal])

/-- The emitted clips of a trace with their actions. -/
def emissions (trace : List (Call × Answer)) : List (Action × ClipRecord) :=
  trace.filterMap fun event => event.2.out.map fun clip => (event.2.action, clip)

/-! ## The reference -/

/-- What the reference decides about one input. -/
inductive Verdict where
  /-- The record is late. -/
  | dropped
  /-- The record is accepted. -/
  | taken (rec : MetaRecord)
  /-- The idle check closes the open clip. -/
  | expired
  /-- The idle check finds nothing to close. -/
  | quiet
  deriving DecidableEq

/-- The verdicts on the inputs. `last` is the last accepted record of the open clip with the
clock at its arrival; it is absent while no clip is open. -/
def verdicts (last : Option (MetaRecord × Int64)) : List Input → List Verdict
  | [] => []
  | .chunk rec nowMs :: inputs =>
    match last with
    | some (prev, wall) =>
      if rec.seq.toNat ≤ prev.seq.toNat then .dropped :: verdicts (some (prev, wall)) inputs
      else .taken rec :: verdicts (some (rec, nowMs)) inputs
    | none => .taken rec :: verdicts (some (rec, nowMs)) inputs
  | .idle idleMs nowMs :: inputs =>
    match last with
    | some (prev, wall) =>
      if idleMs.toInt ≤ nowMs.toInt - wall.toInt then .expired :: verdicts none inputs
      else .quiet :: verdicts (some (prev, wall)) inputs
    | none => .quiet :: verdicts none inputs

/-- An accepted record or the expiry of the open clip. -/
inductive Mark where
  | chunk (rec : MetaRecord)
  | expiry
  deriving DecidableEq

/-- What a verdict leaves for the cut. -/
def Verdict.mark? : Verdict → Option Mark
  | .taken rec => some (.chunk rec)
  | .expired => some .expiry
  | .dropped => none
  | .quiet => none

/-- The accepted records in order, with the expiries between them. -/
def marks (last : Option (MetaRecord × Int64)) (inputs : List Input) : List Mark :=
  (verdicts last inputs).filterMap Verdict.mark?

/-- Why a segment ends. -/
inductive Cut where
  /-- The next record is contiguous but past the window. -/
  | window
  /-- The next record is not contiguous. -/
  | discontinuity
  /-- The clip expired. -/
  | idle
  /-- The input ended. -/
  | final
  deriving DecidableEq

/-- The action a cut calls for. -/
def Cut.action : Cut → Action
  | .window | .final => .emitComplete
  | .discontinuity | .idle => .emitPartial

/-- A maximal group of records with the reason it was closed. -/
structure Segment where
  /-- The record that opened the clip. -/
  first : MetaRecord
  /-- The records that joined it. -/
  rest : List MetaRecord
  /-- Why the clip was closed. -/
  cut : Cut

/-- The record continues the one before it. -/
def Contiguous (prev rec : MetaRecord) : Prop :=
  rec.seq.toNat = prev.seq.toNat + 1 ∧
    rec.offset.toNat = prev.offset.toNat + prev.length.toNat

instance (prev rec : MetaRecord) : Decidable (Contiguous prev rec) :=
  inferInstanceAs (Decidable (_ ∧ _))

/-- The record lies inside the window the first record opened. -/
def Within (clipMs : Int64) (first rec : MetaRecord) : Prop :=
  rec.tsMs.toInt - first.tsMs.toInt < clipMs.toInt

instance (clipMs : Int64) (first rec : MetaRecord) : Decidable (Within clipMs first rec) :=
  inferInstanceAs (Decidable (_ < _))

/-- The records that join the clip opened by `first` and last extended by `prev`, the reason
the clip is closed, and the marks left over. -/
def takeClip (clipMs : Int64) (first prev : MetaRecord) :
    List Mark → List MetaRecord × Cut × List Mark
  | [] => ([], .final, [])
  | .expiry :: left => ([], .idle, left)
  | .chunk rec :: left =>
    if Contiguous prev rec then
      if Within clipMs first rec then
        let taken := takeClip clipMs first rec left
        (rec :: taken.1, taken.2)
      else ([], .window, .chunk rec :: left)
    else ([], .discontinuity, .chunk rec :: left)

/-- Taking a clip never adds marks. -/
theorem takeClip_length (clipMs : Int64) (first : MetaRecord) (left : List Mark) :
    ∀ prev, (takeClip clipMs first prev left).2.2.length ≤ left.length := by
  induction left with
  | nil => simp [takeClip]
  | cons mark left ih =>
    intro prev
    cases mark with
    | expiry => simp [takeClip]
    | chunk rec =>
      have shorter := ih rec
      by_cases contiguous : Contiguous prev rec <;> by_cases within : Within clipMs first rec <;>
        simp only [takeClip, contiguous, within, ↓reduceIte, List.length_cons] <;> omega

/-- The greedy cut of the marks. -/
def segments (clipMs : Int64) : List Mark → List Segment
  | [] => []
  -- No clip is open here, so the filter leaves no expiry in this place.
  | .expiry :: left => segments clipMs left
  | .chunk first :: left =>
    let taken := takeClip clipMs first first left
    ⟨first, taken.1, taken.2.1⟩ :: segments clipMs taken.2.2
termination_by left => left.length
decreasing_by
  · simp
  · exact Nat.lt_succ_of_le (takeClip_length clipMs first left first)

/-- The record a group ends with. -/
def lastOf (first : MetaRecord) (rest : List MetaRecord) : MetaRecord := rest.getLastD first

@[simp]
theorem lastOf_nil (first : MetaRecord) : lastOf first [] = first := rfl

@[simp]
theorem lastOf_snoc (first rec : MetaRecord) (rest : List MetaRecord) :
    lastOf first (rest ++ [rec]) = rec := by simp [lastOf]

/-- The record a group ends with is the last of its list. -/
theorem getLast?_group (first : MetaRecord) (rest : List MetaRecord) :
    (first :: rest).getLast? = some (lastOf first rest) := by
  simp [lastOf, List.getLast?_cons]

/-- The tags of a segment, added record by record. -/
def mergedEvents (first : MetaRecord) (rest : List MetaRecord) : EventSet :=
  rest.foldl (fun set rec => (set.addAll rec.events).1) first.events

/-- The clip a group of records stands for. -/
def clipOf (first : MetaRecord) (rest : List MetaRecord) : ClipRecord where
  active := true
  startTsMs := first.tsMs
  endTsMs := (lastOf first rest).tsMs
  startOffset := first.offset
  totalLength := UInt64.ofNat ((first :: rest).map fun rec => rec.length.toNat).sum
  events := mergedEvents first rest

/-- What the reference emits for a segment. -/
def Segment.emission (segment : Segment) : Action × ClipRecord :=
  (segment.cut.action, clipOf segment.first segment.rest)

/-! ## The simulation -/

/-- An open clip of the code and the group of the reference it stands for. -/
structure Tracks (fsm : Fsm) (first : MetaRecord) (rest : List MetaRecord) (wall : Int64) :
    Prop where
  collects : Collects fsm (first :: rest)
  events : fsm.events = mergedEvents first rest
  wall : fsm.lastChunkWallMs = wall

/-- The snapshot of an open clip is the clip of its group. -/
theorem Tracks.snapshot {fsm : Fsm} {first : MetaRecord} {rest : List MetaRecord} {wall : Int64}
    (tracks : Tracks fsm first rest wall) : fsm.snapshotClip = clipOf first rest := by
  have clip := tracks.collects.clip
  have active : fsm.active = true := clip.active
  obtain ⟨offset, start⟩ := clip.first first rfl
  have ends := (clip.last (lastOf first rest) (getLast?_group first rest)).1
  have total := congrArg UInt64.ofNat clip.total
  simp only [Fsm.snapshotClip, UInt64.ofNat_toNat] at offset start ends total
  simp only [Fsm.snapshotClip, clipOf, active, offset, start, ends, total, tracks.events]

/-- A parsed record starts a group of its own. -/
theorem startClip_tracks {rec : MetaRecord} {nowMs : Int64} (parsed : rec.Parsed)
    (clock : 0 ≤ nowMs.toInt) : Tracks (Fsm.startClip rec nowMs) rec [] nowMs :=
  ⟨startClip_collects parsed clock, rfl, rfl⟩

/-- A contiguous record joins the group. -/
theorem appendRecord_tracks {fsm : Fsm} {first rec : MetaRecord} {rest : List MetaRecord}
    {wall nowMs : Int64} (tracks : Tracks fsm first rest wall) (parsed : rec.Parsed)
    (adjacent : rec.offset = fsm.expectedOffset) (clock : 0 ≤ nowMs.toInt) :
    Tracks (fsm.appendRecord rec nowMs) first (rest ++ [rec]) nowMs where
  collects := appendRecord_collects tracks.collects parsed adjacent clock
  events := by simp [Fsm.appendRecord, mergedEvents, tracks.events]
  wall := rfl

/-- The expected fields of an open clip continue its last record. -/
theorem Tracks.next {fsm : Fsm} {first : MetaRecord} {rest : List MetaRecord} {wall : Int64}
    (tracks : Tracks fsm first rest wall) :
    fsm.expectedSeq.toNat = (lastOf first rest).seq.toNat + 1 ∧
      fsm.expectedOffset.toNat =
        (lastOf first rest).offset.toNat + (lastOf first rest).length.toNat :=
  tracks.collects.next _ (getLast?_group first rest)

/-- A signed difference that fits is computed without wrapping. -/
theorem toInt_sub_of_fits {left right : Int64} (fits : FitsInt64 (left.toInt - right.toInt)) :
    (left - right).toInt = left.toInt - right.toInt := by
  rw [Int64.toInt_sub]
  obtain ⟨lower, upper⟩ := fits
  exact Int.bmod_eq_of_le (by omega) (by omega)

/-- The code's window test is the reference's. -/
theorem Tracks.window {fsm : Fsm} {first rec : MetaRecord} {rest : List MetaRecord}
    {wall : Int64} (tracks : Tracks fsm first rest wall) (parsed : rec.Parsed) (clipMs : Int64) :
    ¬clipMs ≤ rec.tsMs - fsm.startTsMs ↔ Within clipMs first rec := by
  have start : fsm.startTsMs = first.tsMs := (tracks.collects.clip.first first rfl).2
  have bound := tracks.collects.start
  have tsMs := parsed.tsMs
  have fits : FitsInt64 (rec.tsMs.toInt - fsm.startTsMs.toInt) := by
    simp only [maxSafeInteger] at bound tsMs
    constructor <;> omega
  rw [Int64.le_iff_toInt_le, toInt_sub_of_fits fits, start, Within, Int.not_le]

/-- The code's idle test is the reference's. -/
theorem Tracks.idle {fsm : Fsm} {first : MetaRecord} {rest : List MetaRecord} {wall : Int64}
    (tracks : Tracks fsm first rest wall) {nowMs : Int64} (clock : 0 ≤ nowMs.toInt)
    (idleMs : Int64) :
    nowMs - fsm.lastChunkWallMs < idleMs ↔ ¬idleMs.toInt ≤ nowMs.toInt - wall.toInt := by
  have fits : FitsInt64 (nowMs.toInt - fsm.lastChunkWallMs.toInt) := by
    have past := tracks.collects.wall
    have upper := nowMs.toInt_lt
    have lower := fsm.lastChunkWallMs.toInt_lt
    constructor <;> omega
  rw [Int64.lt_iff_toInt_lt, toInt_sub_of_fits fits, tracks.wall, Int.not_le]

/-- What the reference still emits when a group is open. -/
def openSegments (clipMs : Int64) (first : MetaRecord) (rest : List MetaRecord)
    (left : List Mark) : List Segment :=
  let taken := takeClip clipMs first (lastOf first rest) left
  ⟨first, rest ++ taken.1, taken.2.1⟩ :: segments clipMs taken.2.2

/-- The reference opens a group at a record when none is open. -/
theorem segments_chunk (clipMs : Int64) (first : MetaRecord) (left : List Mark) :
    segments clipMs (.chunk first :: left) = openSegments clipMs first [] left := by
  rw [segments]
  simp [openSegments]

/-- A trace emits what its first answer emits, then the rest. -/
@[simp]
theorem emissions_cons (event : Call × Answer) (rest : List (Call × Answer)) :
    emissions (event :: rest) =
      (event.2.out.map fun clip => (event.2.action, clip)).toList ++ emissions rest := by
  cases found : event.2.out <;> simp [emissions, found]

/-- The answers that refuse a record, as flags. -/
def refusals (trace : List (Call × Answer)) : List Bool :=
  trace.map fun event => decide (event.2.action = .rejectLate)

/-- The dropped records of the reference, as flags; the final flush drops nothing. -/
def drops (last : Option (MetaRecord × Int64)) (inputs : List Input) : List Bool :=
  (verdicts last inputs).map (fun verdict => decide (verdict = .dropped)) ++ [false]

/-- The code and the reference agree from a closed state. -/
def AgreesClosed (clipMs : Int64) (inputs : List Input) : Prop :=
  ∀ fsm, fsm.active = false →
    emissions (inputTrace clipMs fsm inputs) =
        (segments clipMs (marks none inputs)).map Segment.emission ∧
      refusals (inputTrace clipMs fsm inputs) = drops none inputs

/-- The code and the reference agree from an open clip. -/
def AgreesOpen (clipMs : Int64) (inputs : List Input) : Prop :=
  ∀ fsm first rest wall, Tracks fsm first rest wall →
    emissions (inputTrace clipMs fsm inputs) =
        (openSegments clipMs first rest
          (marks (some (lastOf first rest, wall)) inputs)).map Segment.emission ∧
      refusals (inputTrace clipMs fsm inputs) = drops (some (lastOf first rest, wall)) inputs

/-- A run starts with the answer to its first input. -/
theorem inputTrace_cons (clipMs : Int64) (fsm : Fsm) (input : Input) (inputs : List Input) :
    inputTrace clipMs fsm (input :: inputs) =
      (input.call clipMs, fsm.answer (input.call clipMs)) ::
        inputTrace clipMs (fsm.answer (input.call clipMs)).fsm inputs := rfl

/-- A parsed record opens a clip from a closed state. -/
theorem agreesClosed_chunk {clipMs : Int64} {rec : MetaRecord} {nowMs : Int64}
    {inputs : List Input} (parsed : rec.Parsed) (clock : 0 ≤ nowMs.toInt)
    (later : AgreesOpen clipMs inputs) : AgreesClosed clipMs (.chunk rec nowMs :: inputs) := by
  intro fsm closed
  obtain ⟨emits, refuses⟩ := later _ rec [] nowMs (startClip_tracks parsed clock)
  have answer : fsm.answer (.processRecord rec clipMs nowMs) =
      ⟨Fsm.startClip rec nowMs, .none, none⟩ := by
    simp [Fsm.answer, Fsm.processRecord, parsed.valid, closed]
  simp only [inputTrace_cons, Input.call, answer]
  constructor
  · simpa [marks, verdicts, Verdict.mark?, segments_chunk] using emits
  · simpa [refusals, drops, verdicts] using refuses

/-- An idle check leaves a closed state alone. -/
theorem agreesClosed_idle {clipMs idleMs nowMs : Int64} {inputs : List Input}
    (later : AgreesClosed clipMs inputs) :
    AgreesClosed clipMs (.idle idleMs nowMs :: inputs) := by
  intro fsm closed
  obtain ⟨emits, refuses⟩ := later fsm closed
  have answer : fsm.answer (.checkIdle idleMs nowMs) = ⟨fsm, .none, none⟩ := by
    simp [Fsm.answer, Fsm.checkIdle, closed]
  simp only [inputTrace_cons, Input.call, answer]
  constructor
  · simpa [marks, verdicts, Verdict.mark?, List.filterMap_cons] using emits
  · simpa [refusals, drops, verdicts] using refuses

/-- The guards of the code, read on the last record of an open group. -/
theorem Tracks.guards {fsm : Fsm} {first : MetaRecord} {rest : List MetaRecord} {wall : Int64}
    (tracks : Tracks fsm first rest wall) (rec : MetaRecord) :
    (rec.seq < fsm.expectedSeq ↔ rec.seq.toNat ≤ (lastOf first rest).seq.toNat) ∧
      (rec.seq = fsm.expectedSeq ∧ rec.offset = fsm.expectedOffset ↔
        Contiguous (lastOf first rest) rec) := by
  obtain ⟨seq, offset⟩ := tracks.next
  rw [UInt64.lt_iff_toNat_lt, ← UInt64.toNat_inj, ← UInt64.toNat_inj, Contiguous]
  omega

/-- A record meets an open clip: it is refused, or it closes the clip and opens its own, or it
joins the clip; the reference decides the same. -/
theorem agreesOpen_chunk {clipMs : Int64} {rec : MetaRecord} {nowMs : Int64}
    {inputs : List Input} (parsed : rec.Parsed) (clock : 0 ≤ nowMs.toInt)
    (later : AgreesOpen clipMs inputs) : AgreesOpen clipMs (.chunk rec nowMs :: inputs) := by
  intro fsm first rest wall tracks
  have opened : fsm.active = true := tracks.collects.clip.active
  obtain ⟨late, contiguous⟩ := tracks.guards rec
  have inside := tracks.window parsed clipMs
  have rule := processRecord_rule fsm rec clipMs nowMs parsed.valid
  simp only [inputTrace_cons, Input.call, Fsm.answer]
  generalize fsm.processRecord rec clipMs nowMs = answer at rule ⊢
  cases rule with
  | start closed =>
    rw [opened] at closed
    contradiction
  | late _ behind =>
    obtain ⟨emits, refuses⟩ := later fsm first rest wall tracks
    constructor
    · simpa [marks, verdicts, Verdict.mark?, List.filterMap_cons, late.mp behind] using emits
    · simpa [refusals, drops, verdicts, late.mp behind] using refuses
  | gap _ ahead broken =>
    obtain ⟨emits, refuses⟩ := later _ rec [] nowMs (startClip_tracks parsed clock)
    have fresh : ¬rec.seq.toNat ≤ (lastOf first rest).seq.toNat := mt late.mpr ahead
    have apart : ¬Contiguous (lastOf first rest) rec := by
      rw [← contiguous]
      rintro ⟨next, adjacent⟩
      rcases broken with jump | moved
      · exact absurd (next ▸ jump) (UInt64.lt_irrefl _)
      · exact moved adjacent
    constructor
    · simpa [marks, verdicts, Verdict.mark?, fresh, openSegments, takeClip, apart,
        segments_chunk, Segment.emission, Cut.action, tracks.snapshot] using emits
    · simpa [refusals, drops, verdicts, fresh] using refuses
  | window _ next adjacent past =>
    obtain ⟨emits, refuses⟩ := later _ rec [] nowMs (startClip_tracks parsed clock)
    have joined := contiguous.mp ⟨next, adjacent⟩
    have fresh : ¬rec.seq.toNat ≤ (lastOf first rest).seq.toNat := by
      have seq := joined.1
      omega
    have outside : ¬Within clipMs first rec := by
      rw [← inside]
      exact not_not_intro past
    constructor
    · simpa [marks, verdicts, Verdict.mark?, fresh, openSegments, takeClip, joined, outside,
        segments_chunk, Segment.emission, Cut.action, tracks.snapshot] using emits
    · simpa [refusals, drops, verdicts, fresh] using refuses
  | append _ next adjacent within =>
    obtain ⟨emits, refuses⟩ := later _ first (rest ++ [rec]) nowMs
      (appendRecord_tracks tracks parsed adjacent clock)
    have joined := contiguous.mp ⟨next, adjacent⟩
    have fresh : ¬rec.seq.toNat ≤ (lastOf first rest).seq.toNat := by
      have seq := joined.1
      omega
    rw [lastOf_snoc] at emits refuses
    constructor
    · simpa [marks, verdicts, Verdict.mark?, fresh, openSegments, takeClip, joined,
        inside.mp within] using emits
    · simpa [refusals, drops, verdicts, fresh] using refuses

/-- An idle check meets an open clip: it expires for both or for neither. -/
theorem agreesOpen_idle {clipMs idleMs nowMs : Int64} {inputs : List Input}
    (clock : 0 ≤ nowMs.toInt) (closed : AgreesClosed clipMs inputs)
    (later : AgreesOpen clipMs inputs) : AgreesOpen clipMs (.idle idleMs nowMs :: inputs) := by
  intro fsm first rest wall tracks
  have opened : fsm.active = true := tracks.collects.clip.active
  have idle := tracks.idle clock idleMs
  have rule := checkIdle_rule fsm idleMs nowMs
  simp only [inputTrace_cons, Input.call, Fsm.answer]
  generalize fsm.checkIdle idleMs nowMs = answer at rule ⊢
  cases rule with
  | keep recent =>
    obtain ⟨emits, refuses⟩ := later fsm first rest wall tracks
    have awake := idle.mp (recent opened)
    constructor
    · simpa [marks, verdicts, Verdict.mark?, List.filterMap_cons, awake] using emits
    · simpa [refusals, drops, verdicts, awake] using refuses
  | expire _ stale =>
    obtain ⟨emits, refuses⟩ := closed Fsm.reset rfl
    have expired : idleMs.toInt ≤ nowMs.toInt - wall.toInt := by
      by_contra awake
      exact stale (idle.mpr awake)
    constructor
    · simpa [marks, verdicts, Verdict.mark?, expired, openSegments, takeClip,
        Segment.emission, Cut.action, tracks.snapshot] using emits
    · simpa [refusals, drops, verdicts, expired] using refuses

/-- The code and the reference agree on every run, from a closed state and from an open clip. -/
theorem agrees (clipMs : Int64) (inputs : List Input)
    (admissible : ∀ input ∈ inputs, input.Admissible) :
    AgreesClosed clipMs inputs ∧ AgreesOpen clipMs inputs := by
  induction inputs with
  | nil =>
    constructor
    · intro fsm closed
      simp [inputTrace, Fsm.trace, Fsm.answer, Fsm.flushFinal, closed, marks, verdicts,
        segments, emissions, refusals, drops]
    · intro fsm first rest wall tracks
      have opened : fsm.active = true := tracks.collects.clip.active
      simp [inputTrace, Fsm.trace, Fsm.answer, Fsm.flushFinal, opened, marks, verdicts,
        openSegments, takeClip, segments, emissions, refusals, drops, Segment.emission,
        Cut.action, tracks.snapshot]
  | cons input inputs ih =>
    obtain ⟨closed, opened⟩ := ih fun later member => admissible later (by simp [member])
    cases input with
    | chunk rec nowMs =>
      obtain ⟨parsed, clock⟩ := admissible (.chunk rec nowMs) (by simp)
      exact ⟨agreesClosed_chunk parsed clock opened, agreesOpen_chunk parsed clock opened⟩
    | idle idleMs nowMs =>
      have clock : 0 ≤ nowMs.toInt := admissible (.idle idleMs nowMs) (by simp)
      exact ⟨agreesClosed_idle closed, agreesOpen_idle clock closed opened⟩

/-! ## What the cut guarantees -/

/-- Only records inside the window join a clip. -/
theorem takeClip_within (clipMs : Int64) (first : MetaRecord) (left : List Mark) :
    ∀ prev, ∀ rec ∈ (takeClip clipMs first prev left).1, Within clipMs first rec := by
  induction left with
  | nil => simp [takeClip]
  | cons mark left ih =>
    intro prev
    cases mark with
    | expiry => simp [takeClip]
    | chunk rec =>
      by_cases contiguous : Contiguous prev rec
      · by_cases within : Within clipMs first rec
        · simpa [takeClip, contiguous, within] using ih rec
        · simp [takeClip, contiguous, within]
      · simp [takeClip, contiguous]

/-- Every record of a segment lies inside the window of its first record. -/
theorem segments_within {clipMs : Int64} (positive : 0 < clipMs.toInt) (left : List Mark) :
    ∀ segment ∈ segments clipMs left, ∀ rec ∈ segment.first :: segment.rest,
      Within clipMs segment.first rec := by
  fun_induction segments clipMs left with
  | case1 => simp
  | case2 left ih => exact ih
  | case3 first left taken ih =>
    intro segment member rec inside
    rcases List.mem_cons.mp member with rfl | later
    · rcases List.mem_cons.mp inside with rfl | joined
      · simpa [Within] using positive
      · exact takeClip_within clipMs first left first rec joined
    · exact ih segment later rec inside

/-- A flushed run with a fixed positive window emits exactly the segments of the batch
reference, each with the action its cut calls for; it refuses exactly the records the reference
drops; and every record of a segment is less than the window later than its first. -/
theorem segmentation_greedy (clipMs : Int64) (positive : 0 < clipMs.toInt) (inputs : List Input)
    (admissible : ∀ input ∈ inputs, input.Admissible) :
    emissions (inputTrace clipMs Fsm.reset inputs) =
        (segments clipMs (marks none inputs)).map Segment.emission ∧
      refusals (inputTrace clipMs Fsm.reset inputs) = drops none inputs ∧
      ∀ segment ∈ segments clipMs (marks none inputs),
        ∀ rec ∈ segment.first :: segment.rest,
          rec.tsMs.toInt - segment.first.tsMs.toInt < clipMs.toInt := by
  obtain ⟨emits, refuses⟩ := (agrees clipMs inputs admissible).1 Fsm.reset rfl
  exact ⟨emits, refuses, segments_within positive _⟩

/-- Two contiguous chunks, a window cut, a repeated chunk, a gap and an idle timeout. -/
def mixedInputs : List Input :=
  [.chunk (.data 1 0 4 0) 0, .chunk (.data 2 4 4 3000) 50, .chunk (.data 3 8 4 6000) 100,
    .chunk (.data 3 8 4 6000) 110, .chunk (.data 7 40 4 7000) 120, .idle 2000 2120,
    .chunk (.data 8 44 4 8000) 2200]

/-- The reference at a run that meets every rule. -/
theorem segmentation_greedy_mixedInputs :
    emissions (inputTrace 5000 Fsm.reset mixedInputs) =
        (segments 5000 (marks none mixedInputs)).map Segment.emission ∧
      refusals (inputTrace 5000 Fsm.reset mixedInputs) = drops none mixedInputs ∧
      ∀ segment ∈ segments 5000 (marks none mixedInputs),
        ∀ rec ∈ segment.first :: segment.rest,
          rec.tsMs.toInt - segment.first.tsMs.toInt < (5000 : Int64).toInt :=
  segmentation_greedy 5000 (by decide) mixedInputs (by decide)

end StreamPipeline.Merge
