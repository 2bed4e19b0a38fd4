import StreamPipeline.Merge.Emit
import StreamPipeline.Merge.Segments
import StreamPipeline.Store.Main

/-!
# Keys of emitted clips

The ingest loop stores a clip under its session id and its start in whole seconds. Clips leave
the state machine in the order of their starts, and one closed by the window rule lies a whole
window before the next. A clip closed by a gap can lie as close to the next as two chunks can,
so the two may share a second and with it the key.
-/

namespace StreamPipeline.Merge

/-- The key under which the ingest loop stores a printed clip. -/
def clipKey (session : CStr) (clip : ClipRecord) : CStr := Store.ingestKey session clip.tsSec

/-- A run of records alone, each with the clock at its arrival. -/
def chunks (records : List (MetaRecord × Int64)) : List Input :=
  records.map fun arrival => .chunk arrival.1 arrival.2

/-- The timestamps never decrease. -/
def Ordered (records : List (MetaRecord × Int64)) : Prop :=
  records.Pairwise fun earlier later => earlier.1.tsMs.toInt ≤ later.1.tsMs.toInt

instance (records : List (MetaRecord × Int64)) : Decidable (Ordered records) := by
  unfold Ordered
  infer_instance

/-- A clip and the next one: their starts are ordered, and after a window cut they lie at least
the window apart. -/
def Follows (clipMs : Int64) (left right : Action × ClipRecord) : Prop :=
  left.2.startTsMs.toInt ≤ right.2.startTsMs.toInt ∧
    (left.1 = .emitComplete →
      left.2.startTsMs.toInt + clipMs.toInt ≤ right.2.startTsMs.toInt)

/-- The emissions begin with a clip that starts at the given time, each followed by the next. -/
def EmitsFrom (clipMs startTsMs : Int64) (emitted : List (Action × ClipRecord)) : Prop :=
  ∃ action clip later, emitted = (action, clip) :: later ∧ clip.startTsMs = startTsMs ∧
    List.IsChain (Follows clipMs) ((action, clip) :: later)

/-- A clip in front of emissions that follow it. -/
theorem EmitsFrom.cons {clipMs startTsMs : Int64} {emitted : List (Action × ClipRecord)}
    (emits : EmitsFrom clipMs startTsMs emitted) (action : Action) (clip : ClipRecord)
    (follows : ∀ next : Action × ClipRecord, next.2.startTsMs = startTsMs →
      Follows clipMs (action, clip) next) :
    EmitsFrom clipMs clip.startTsMs ((action, clip) :: emitted) := by
  obtain ⟨nextAction, next, later, rfl, start, chain⟩ := emits
  have first := follows (nextAction, next) start
  exact ⟨action, clip, (nextAction, next) :: later, rfl, rfl,
    List.isChain_cons_cons.mpr ⟨first, chain⟩⟩

/-- What a run emits from an open clip: that clip first, each one followed by the next. -/
theorem emits_of_active (clipMs : Int64) (records : List (MetaRecord × Int64))
    (parsed : ∀ arrival ∈ records, arrival.1.Parsed) (ordered : Ordered records) (fsm : Fsm)
    (opened : fsm.active = true) (start : fsm.startTsMs.toInt.natAbs ≤ maxSafeInteger)
    (past : ∀ arrival ∈ records, fsm.startTsMs.toInt ≤ arrival.1.tsMs.toInt) :
    EmitsFrom clipMs fsm.startTsMs (emissions (inputTrace clipMs fsm (chunks records))) := by
  induction records generalizing fsm with
  | nil =>
    refine ⟨.emitComplete, fsm.snapshotClip, [], ?_, rfl, by simp⟩
    simp [chunks, inputTrace, Fsm.trace, Fsm.answer, Fsm.flushFinal, opened, emissions]
  | cons arrival records ih =>
    obtain ⟨rec, nowMs⟩ := arrival
    obtain ⟨ahead, ordered⟩ := List.pairwise_cons.mp ordered
    have here : rec.Parsed := parsed (rec, nowMs) List.mem_cons_self
    have forward : fsm.startTsMs.toInt ≤ rec.tsMs.toInt := past (rec, nowMs) List.mem_cons_self
    have later := ih (fun other member => parsed other (List.mem_cons_of_mem _ member)) ordered
    have opens := later (Fsm.startClip rec nowMs) rfl here.tsMs ahead
    have behind : ∀ other ∈ records, fsm.startTsMs.toInt ≤ other.1.tsMs.toInt :=
      fun other member => past other (List.mem_cons_of_mem _ member)
    have rule := processRecord_rule fsm rec clipMs nowMs here.valid
    simp only [chunks, List.map_cons, inputTrace_cons, Input.call, Fsm.answer, emissions_cons]
    generalize fsm.processRecord rec clipMs nowMs = answer at rule ⊢
    cases rule with
    | start closed =>
      rw [opened] at closed
      contradiction
    | late => exact later fsm opened start behind
    | gap =>
      apply opens.cons .emitPartial fsm.snapshotClip
      intro next same
      rw [Follows, same]
      exact ⟨forward, fun complete => by contradiction⟩
    | window _ _ _ cut =>
      have fits : FitsInt64 (rec.tsMs.toInt - fsm.startTsMs.toInt) := by
        have bound := here.tsMs
        simp only [maxSafeInteger] at bound start
        constructor <;> omega
      rw [Int64.le_iff_toInt_le, toInt_sub_of_fits fits] at cut
      apply opens.cons .emitComplete fsm.snapshotClip
      intro next same
      rw [Follows, same]
      refine ⟨forward, fun _ => ?_⟩
      show fsm.startTsMs.toInt + clipMs.toInt ≤ rec.tsMs.toInt
      omega
    | append => exact later (fsm.appendRecord rec nowMs) opened start behind

/-- The clips of a whole run follow each other. -/
theorem emissions_chain (clipMs : Int64) (records : List (MetaRecord × Int64))
    (parsed : ∀ arrival ∈ records, arrival.1.Parsed) (ordered : Ordered records) :
    List.IsChain (Follows clipMs) (emissions (inputTrace clipMs Fsm.reset (chunks records))) := by
  cases records with
  | nil => simp [chunks, inputTrace, Fsm.trace, Fsm.answer, Fsm.flushFinal, Fsm.reset, emissions]
  | cons arrival records =>
    obtain ⟨rec, nowMs⟩ := arrival
    obtain ⟨ahead, ordered⟩ := List.pairwise_cons.mp ordered
    have here : rec.Parsed := parsed (rec, nowMs) List.mem_cons_self
    have opens := emits_of_active clipMs records
      (fun other member => parsed other (List.mem_cons_of_mem _ member)) ordered
      (Fsm.startClip rec nowMs) rfl here.tsMs ahead
    have first : Fsm.reset.processRecord rec clipMs nowMs =
        ⟨Fsm.startClip rec nowMs, .none, none⟩ := by
      simp [Fsm.processRecord, here.valid, Fsm.reset]
    simp only [chunks, List.map_cons, inputTrace_cons, Input.call, Fsm.answer, emissions_cons,
      first]
    obtain ⟨action, clip, later, same, -, chain⟩ := opens
    rw [chunks] at same
    rw [same]
    exact chain

/-- Between two clips of a chain the starts grow, by a window when a window cut lies between. -/
theorem follows_between {clipMs : Int64} (between after : List (Action × ClipRecord))
    (second : Action × ClipRecord) :
    ∀ first, List.IsChain (Follows clipMs) (first :: (between ++ second :: after)) →
      first.2.startTsMs.toInt ≤ second.2.startTsMs.toInt ∧
        ((∃ emitted ∈ first :: between, emitted.1 = .emitComplete) →
          first.2.startTsMs.toInt + clipMs.toInt ≤ second.2.startTsMs.toInt) := by
  induction between with
  | nil =>
    intro first chain
    obtain ⟨step, apart⟩ := (List.isChain_cons_cons.mp chain).1
    refine ⟨step, ?_⟩
    rintro ⟨emitted, member, complete⟩
    rw [List.mem_singleton.mp member] at complete
    exact apart complete
  | cons next between ih =>
    intro first chain
    obtain ⟨⟨step, apart⟩, rest⟩ := List.isChain_cons_cons.mp chain
    obtain ⟨onward, far⟩ := ih next rest
    refine ⟨by omega, ?_⟩
    rintro ⟨emitted, member, complete⟩
    rcases List.mem_cons.mp member with rfl | deeper
    · have gap := apart complete
      omega
    · have gap := far ⟨emitted, deeper, complete⟩
      omega

/-- Two clips have the same key exactly when they start in the same second. -/
theorem clipKey_eq_iff (session : CStr) (first second : ClipRecord) :
    clipKey session first = clipKey session second ↔
      first.startTsMs.toInt.tdiv 1000 = second.startTsMs.toInt.tdiv 1000 := by
  have seconds (clip : ClipRecord) : clip.tsSec.toInt = clip.startTsMs.toInt.tdiv 1000 :=
    Int64.toInt_div_of_ne_right _ _ (by decide)
  rw [← seconds, ← seconds]
  constructor
  · intro same
    have bytes := congrArg CStr.bytes same
    simp only [clipKey, Store.ingestKey, CStr.bytes_append, CStr.ofWord,
      List.append_cancel_left_eq] at bytes
    rw [decimal_injective bytes]
  · intro same
    have word : first.tsSec = second.tsSec := Int64.toInt_inj.mp same
    rw [clipKey, clipKey, word]

/-- Starts a second or more apart share a second only on both sides of the epoch, where the
truncating division gives it twice the width. -/
theorem tdiv_eq_of_apart {left right : Int} (apart : left + 1000 ≤ right) :
    left.tdiv 1000 = right.tdiv 1000 ↔ -1000 < left ∧ right < 1000 := by
  have truncates (value : Int) : value.tdiv 1000 =
      if 0 ≤ value then value / 1000 else -(-value / 1000) := by
    split
    · rename_i nonneg
      exact Int.tdiv_eq_ediv_of_nonneg nonneg
    · rename_i negative
      have mirrored : (-value).tdiv 1000 = -value / 1000 :=
        Int.tdiv_eq_ediv_of_nonneg (by omega)
      rw [← mirrored, Int.neg_tdiv, Int.neg_neg]
  rw [truncates, truncates]
  constructor
  · intro same
    split at same <;> split at same <;> omega
  · intro near
    split <;> split <;> omega

/-- For every run of parsed records with ordered timestamps and a window of at least a second,
closed by the final flush, and any two clips it emits: they share a key exactly when they start
in the same second; the later one does not start earlier; and when a clip from the first up to
the second was closed as complete, the starts lie a window apart, and the keys differ unless both
starts are less than a second from the epoch. -/
theorem clip_keys_distinct (clipMs : Int64) (wide : 1000 ≤ clipMs.toInt) (session : CStr)
    (records : List (MetaRecord × Int64)) (parsed : ∀ arrival ∈ records, arrival.1.Parsed)
    (ordered : Ordered records) (before between after : List (Action × ClipRecord))
    (first second : Action × ClipRecord)
    (emitted : emissions (inputTrace clipMs Fsm.reset (chunks records)) =
      before ++ first :: (between ++ second :: after)) :
    (clipKey session first.2 = clipKey session second.2 ↔
        first.2.startTsMs.toInt.tdiv 1000 = second.2.startTsMs.toInt.tdiv 1000) ∧
      first.2.startTsMs.toInt ≤ second.2.startTsMs.toInt ∧
      ((∃ clip ∈ first :: between, clip.1 = .emitComplete) →
        first.2.startTsMs.toInt + clipMs.toInt ≤ second.2.startTsMs.toInt ∧
          (clipKey session first.2 = clipKey session second.2 ↔
            -1000 < first.2.startTsMs.toInt ∧ second.2.startTsMs.toInt < 1000)) := by
  have chain := emissions_chain clipMs records parsed ordered
  rw [emitted] at chain
  obtain ⟨onward, far⟩ := follows_between between after second first chain.right_of_append
  have keys := clipKey_eq_iff session first.2 second.2
  refine ⟨keys, onward, ?_⟩
  intro complete
  have gap := far complete
  exact ⟨gap, keys.trans (tdiv_eq_of_apart (by omega))⟩

/-- Two chunks past each other's window, then a gap. -/
def windowThenGap : List (MetaRecord × Int64) :=
  [(.data 1 0 4 1000, 0), (.data 2 4 4 6000, 10), (.data 5 40 4 6500, 20)]

/-- The first clip of that run and the second, closed by the window and by the gap. -/
theorem clip_keys_distinct_windowThenGap :
    (clipKey (.ofBytes (ascii "cam")) ⟨true, 1000, 1000, 0, 4, .reset⟩ =
          clipKey (.ofBytes (ascii "cam")) ⟨true, 6000, 6000, 4, 4, .reset⟩ ↔
        (1000 : Int64).toInt.tdiv 1000 = (6000 : Int64).toInt.tdiv 1000) ∧
      (1000 : Int64).toInt ≤ (6000 : Int64).toInt ∧
      ((∃ clip ∈ [(Action.emitComplete, (⟨true, 1000, 1000, 0, 4, .reset⟩ : ClipRecord))],
          clip.1 = .emitComplete) →
        (1000 : Int64).toInt + (5000 : Int64).toInt ≤ (6000 : Int64).toInt ∧
          (clipKey (.ofBytes (ascii "cam")) ⟨true, 1000, 1000, 0, 4, .reset⟩ =
              clipKey (.ofBytes (ascii "cam")) ⟨true, 6000, 6000, 4, 4, .reset⟩ ↔
            -1000 < (1000 : Int64).toInt ∧ (6000 : Int64).toInt < 1000)) :=
  clip_keys_distinct 5000 (by decide) (.ofBytes (ascii "cam")) windowThenGap (by decide)
    (by decide) [] [] [(.emitComplete, ⟨true, 6500, 6500, 40, 4, .reset⟩)]
    (.emitComplete, ⟨true, 1000, 1000, 0, 4, .reset⟩)
    (.emitPartial, ⟨true, 6000, 6000, 4, 4, .reset⟩) (by decide)

/-- Sequence numbers 1 and 3, half a second apart, with a window of five seconds: the gap makes
two clips of them, and both are stored under the same key. -/
theorem gap_clips_share_key :
    ∃ first second : ClipRecord,
      emissions (inputTrace 5000 Fsm.reset
          (chunks [(.data 1 0 4 0, 0), (.data 3 8 4 500, 10)])) =
        [(.emitPartial, first), (.emitComplete, second)] ∧
      first ≠ second ∧
      clipKey (.ofBytes (ascii "cam")) first = clipKey (.ofBytes (ascii "cam")) second :=
  ⟨⟨true, 0, 0, 0, 4, .reset⟩, ⟨true, 500, 500, 8, 4, .reset⟩, by decide, by decide, by decide⟩

end StreamPipeline.Merge
