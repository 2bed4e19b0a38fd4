import StreamPipeline.Lib.Distinct
import StreamPipeline.Merge.Run

/-!
# The tags of a clip

`append_record` ignores the result of `sm_event_set_add_all`, which stops at the first tag it
cannot add. A tag of a record whose own set came from `sm_event_set_add_tag` is refused only
when the clip's set is full, and a full set takes nothing any more, so nothing is lost by
stopping there: a clip carries the first sixteen distinct tags of its records.
-/

namespace StreamPipeline.Merge

open Distinct (firstDistinct)

/-- A tag `sm_event_set_add_tag` has a slot for: not empty, and its terminator fits. -/
def Storable (tag : CStr) : Prop := tag.bytes ≠ [] ∧ tag.bytes.length < smEventMaxLen

namespace EventSet

/-- The ways `sm_event_set_add_tag` answers, each with its guard. -/
inductive AddRule (set : EventSet) (tag : CStr) : Option EventSet → Prop where
  /-- The tag is empty or longer than a slot. -/
  | refused (misfit : ¬Storable tag) : AddRule set tag none
  /-- The tag is already there. -/
  | stored (storable : Storable tag) (old : tag ∈ set.items) : AddRule set tag (some set)
  /-- The tag is new and takes the next slot. -/
  | placed {grown : EventSet} (storable : Storable tag) (new : tag ∉ set.items)
      (room : set.items.length < smEventMaxItems) (items : grown.items = set.items ++ [tag]) :
      AddRule set tag (some grown)
  /-- The tag is new and every slot is taken. -/
  | full (new : tag ∉ set.items) (taken : set.items.length = smEventMaxItems) :
      AddRule set tag none

/-- Every addition follows one of the rules. -/
theorem addTag_rule (set : EventSet) (tag : CStr) : AddRule set tag (set.addTag tag) := by
  unfold addTag
  by_cases blank : tag.bytes = []
  · rw [if_pos blank]
    exact .refused fun storable => storable.1 blank
  rw [if_neg blank]
  by_cases short : tag.bytes.length < smEventMaxLen
  · rw [dif_pos short]
    by_cases old : tag ∈ set.items
    · rw [if_pos old]
      exact .stored ⟨blank, short⟩ old
    rw [if_neg old]
    by_cases room : set.items.length < smEventMaxItems
    · rw [dif_pos room]
      exact .placed ⟨blank, short⟩ old room rfl
    · rw [dif_neg room]
      have taken : set.items.length = smEventMaxItems :=
        Nat.le_antisymm set.bounded (Nat.not_lt.mp room)
      exact .full old taken
  · rw [dif_neg short]
    exact .refused fun storable => short storable.2

/-- A set reached from the empty one by `sm_event_set_add_tag`. -/
inductive Built : EventSet → Prop where
  /-- The zeroed set. -/
  | reset : Built .reset
  /-- One more tag was added. -/
  | add {set grown : EventSet} (built : Built set) (tag : CStr)
      (added : set.addTag tag = some grown) : Built grown

/-- What a set in use promises. -/
structure Sound (set : EventSet) : Prop where
  /-- No tag is stored twice. -/
  distinct : set.items.Nodup
  /-- Every stored tag is nonempty and shorter than its slot. -/
  storable : ∀ tag ∈ set.items, Storable tag
  /-- The slots are not exceeded. -/
  bounded : set.items.length ≤ smEventMaxItems

/-- Adding a tag keeps the promise. -/
theorem Sound.addTag {set grown : EventSet} {tag : CStr} (sound : set.Sound)
    (added : set.addTag tag = some grown) : grown.Sound := by
  have rule := addTag_rule set tag
  rw [added] at rule
  cases rule with
  | stored storable old => exact sound
  | placed storable new room items =>
    constructor
    · rw [items]
      apply sound.distinct.append (List.nodup_singleton tag)
      simpa using new
    · intro stored member
      rw [items, List.mem_append, List.mem_singleton] at member
      rcases member with old | rfl
      · exact sound.storable stored old
      · exact storable
    · exact grown.bounded

/-- A built set keeps the promise. -/
theorem Built.sound {set : EventSet} (built : set.Built) : set.Sound := by
  induction built with
  | reset => exact ⟨List.nodup_nil, by simp [EventSet.reset], by simp [EventSet.reset]⟩
  | add built tag added ih => exact ih.addTag added

/-- Whatever `sm_event_set_add_all` adds, the set stays built. -/
theorem Built.addTags {tags : List CStr} :
    ∀ {set : EventSet}, set.Built → (set.addTags tags).1.Built := by
  induction tags with
  | nil => exact fun built => built
  | cons tag rest ih =>
    intro set built
    cases added : set.addTag tag with
    | none =>
      simp only [EventSet.addTags, added]
      exact built
    | some grown =>
      simp only [EventSet.addTags, added]
      exact ih (.add built tag added)

/-- A set that holds the first distinct tags seen holds those of the longer sequence after
`sm_event_set_add_all`, also when it stops early. -/
theorem addTags_items {tags : List CStr} :
    ∀ {set : EventSet} {seen : List CStr}, set.items = firstDistinct smEventMaxItems seen →
      (∀ tag ∈ tags, Storable tag) →
      (set.addTags tags).1.items = firstDistinct smEventMaxItems (seen ++ tags) := by
  induction tags with
  | nil =>
    intro set seen held _
    rw [List.append_nil]
    exact held
  | cons tag rest ih =>
    intro set seen held storable
    have rule := addTag_rule set tag
    have later : ∀ other ∈ rest, Storable other :=
      fun other member => storable other (List.mem_cons_of_mem tag member)
    have split : seen ++ tag :: rest = seen ++ [tag] ++ rest := by simp
    rw [EventSet.addTags]
    generalize set.addTag tag = answer at rule ⊢
    cases rule with
    | refused misfit =>
      have fits := storable tag List.mem_cons_self
      exact absurd fits misfit
    | stored _ old =>
      rw [split]
      apply ih _ later
      rw [held] at old
      rw [Distinct.firstDistinct_snoc_of_mem old]
      exact held
    | placed _ new room items =>
      rw [split]
      apply ih _ later
      rw [held] at new room items
      rw [Distinct.firstDistinct_snoc_of_room new room]
      exact items
    | full new taken =>
      -- The set stops here, and so do the first distinct tags.
      rw [held] at taken
      rw [Distinct.firstDistinct_append_of_full taken]
      exact held

/-- A set is its tags. -/
theorem eq_of_items {set other : EventSet} (same : set.items = other.items) : set = other := by
  obtain ⟨items, bounded, fits⟩ := set
  obtain rfl : items = other.items := same
  rfl

/-- `sm_event_set_add_tag` reaches every set that keeps the promise, by adding its tags in order. -/
theorem Sound.built {set : EventSet} (sound : set.Sound) : set.Built := by
  have items : (reset.addTags set.items).1.items = firstDistinct smEventMaxItems ([] ++ set.items) :=
    addTags_items rfl sound.storable
  rw [List.nil_append, Distinct.firstDistinct_of_nodup sound.distinct sound.bounded] at items
  rw [← eq_of_items items]
  exact .addTags .reset

/-- The sets that `sm_event_set_add_tag` reaches are those that keep the promise. -/
theorem built_iff_sound (set : EventSet) : set.Built ↔ set.Sound := ⟨Built.sound, Sound.built⟩

end EventSet

/-! ## One call -/

/-- The concatenation of the records' event sets. -/
def tagsOf (records : List MetaRecord) : List CStr :=
  records.flatMap fun rec => rec.events.items

/-- A clip carries the first distinct tags of its records, as many as there are slots. -/
structure IsUnionOf (records : List MetaRecord) (clip : ClipRecord) : Prop where
  items : clip.events.items = firstDistinct smEventMaxItems (tagsOf records)
  sound : clip.events.Sound

/-- A record handed over carries a set that `sm_event_set_add_tag` built. -/
def Call.Tagged : Call → Prop
  | .processRecord rec _ _ => rec.events.Built
  | _ => True

/-- The events of a trace without those of invalid records, which join no clip. -/
def heard (trace : List (Call × Answer)) : List (Call × Answer) :=
  trace.filter fun event =>
    match event.1 with
    | .processRecord rec _ _ => rec.valid
    | _ => true

/-- The state has gathered the tags of these records since it started its clip. -/
structure Gathers (fsm : Fsm) (pending : List MetaRecord) : Prop where
  built : fsm.events.Built
  items : fsm.events.items = firstDistinct smEventMaxItems (tagsOf pending)
  closed : fsm.active = false → pending = []

/-- The reset state has gathered nothing. -/
theorem gathers_reset : Gathers Fsm.reset [] := ⟨.reset, rfl, fun _ => rfl⟩

/-- Starting a clip gathers the tags of its record alone. -/
theorem startClip_gathers {rec : MetaRecord} {nowMs : Int64} (built : rec.events.Built) :
    Gathers (Fsm.startClip rec nowMs) [rec] where
  built := built
  items := by
    have sound := built.sound
    have all := Distinct.firstDistinct_of_nodup sound.distinct sound.bounded
    simpa [tagsOf, Fsm.startClip] using all.symm
  closed := by simp [Fsm.startClip]

/-- Appending a record gathers its tags behind the earlier ones. -/
theorem appendRecord_gathers {fsm : Fsm} {pending : List MetaRecord} {rec : MetaRecord}
    {nowMs : Int64} (gathers : Gathers fsm pending) (built : rec.events.Built)
    (opened : fsm.active = true) : Gathers (fsm.appendRecord rec nowMs) (pending ++ [rec]) where
  built := gathers.built.addTags
  items := by
    have joined := EventSet.addTags_items gathers.items built.sound.storable
    have tags : tagsOf (pending ++ [rec]) = tagsOf pending ++ rec.events.items := by
      simp [tagsOf]
    rw [tags]
    exact joined
  closed := by
    intro shut
    have still : fsm.active = false := shut
    rw [opened] at still
    contradiction

/-- The snapshot of a state carries what the state has gathered. -/
theorem Gathers.clip {fsm : Fsm} {pending : List MetaRecord} (gathers : Gathers fsm pending) :
    IsUnionOf pending fsm.snapshotClip := ⟨gathers.items, gathers.built.sound⟩

/-- What one call does to the tags gathered: those of the closed clip are in the snapshot
emitted with it, and those held after it are in the state. -/
structure Unites (pending : List MetaRecord) (event : Call × Answer) : Prop where
  gathers : Gathers event.2.fsm (assign pending event).2
  clips : List.Forall₂ IsUnionOf (assign pending event).1.toList event.2.out.toList

/-- A valid record keeps its tags or starts a clip with them. -/
theorem processRecord_unites {fsm : Fsm} {pending : List MetaRecord} {rec : MetaRecord}
    {clipMs nowMs : Int64} (gathers : Gathers fsm pending) (built : rec.events.Built)
    (valid : rec.valid = true) :
    Unites pending (.processRecord rec clipMs nowMs, fsm.processRecord rec clipMs nowMs) := by
  have fresh : Gathers (Fsm.startClip rec nowMs) [rec] := startClip_gathers built
  have rule := processRecord_rule fsm rec clipMs nowMs valid
  generalize fsm.processRecord rec clipMs nowMs = answer at rule ⊢
  cases rule with
  | start closed =>
    have none := gathers.closed closed
    subst none
    exact ⟨fresh, by simp [assign]⟩
  | late opened behind => exact ⟨gathers, by simp [assign]⟩
  | gap opened ahead broken => exact ⟨fresh, by simpa [assign] using gathers.clip⟩
  | window opened next adjacent past => exact ⟨fresh, by simpa [assign] using gathers.clip⟩
  | append opened next adjacent inside =>
    exact ⟨appendRecord_gathers gathers built opened, by simp [assign]⟩

/-- An idle check keeps the tags or emits them. -/
theorem checkIdle_unites {fsm : Fsm} {pending : List MetaRecord} {idleMs nowMs : Int64}
    (gathers : Gathers fsm pending) :
    Unites pending (.checkIdle idleMs nowMs, fsm.checkIdle idleMs nowMs) := by
  have rule := checkIdle_rule fsm idleMs nowMs
  generalize fsm.checkIdle idleMs nowMs = answer at rule ⊢
  cases rule with
  | keep recent => exact ⟨gathers, by simp [assign]⟩
  | expire opened stale => exact ⟨gathers_reset, by simpa [assign] using gathers.clip⟩

/-- A final flush keeps the tags or emits them. -/
theorem flushFinal_unites {fsm : Fsm} {pending : List MetaRecord} (gathers : Gathers fsm pending) :
    Unites pending (.flushFinal, fsm.flushFinal) := by
  have rule := flushFinal_rule fsm
  generalize fsm.flushFinal = answer at rule ⊢
  cases rule with
  | keep closed => exact ⟨gathers, by simp [assign]⟩
  | emit opened => exact ⟨gathers_reset, by simpa [assign] using gathers.clip⟩

/-- An invalid record leaves the state as it is. -/
theorem processRecord_invalid {fsm : Fsm} {rec : MetaRecord} {clipMs nowMs : Int64}
    (invalid : rec.valid = false) : fsm.processRecord rec clipMs nowMs = ⟨fsm, .none, none⟩ := by
  simp [Fsm.processRecord, invalid]

/-! ## Whole runs -/

/-- What a trace heard first is the first event's, if it is heard, and then the rest's. -/
theorem heard_cons (event : Call × Answer) (rest : List (Call × Answer)) :
    heard (event :: rest) = heard [event] ++ heard rest := by
  rw [← List.singleton_append, heard, List.filter_append]
  rfl

/-- Every call unites the tags of the records it is heard for. -/
theorem answer_unites {fsm : Fsm} {pending : List MetaRecord} {call : Call}
    (gathers : Gathers fsm pending) (tagged : call.Tagged) :
    (heard [(call, fsm.answer call)] = [] ∧ fsm.answer call = ⟨fsm, .none, none⟩) ∨
      (heard [(call, fsm.answer call)] = [(call, fsm.answer call)] ∧
        Unites pending (call, fsm.answer call)) := by
  cases call with
  | processRecord rec clipMs nowMs =>
    cases valid : rec.valid with
    | false => exact .inl ⟨by simp [heard, valid], processRecord_invalid valid⟩
    | true => exact .inr ⟨by simp [heard, valid], processRecord_unites gathers tagged valid⟩
  | checkIdle idleMs nowMs => exact .inr ⟨by simp [heard], checkIdle_unites gathers⟩
  | flushFinal => exact .inr ⟨by simp [heard], flushFinal_unites gathers⟩

/-- The state a run ends in has gathered the tags of some records. -/
theorem after_gathers {calls : List Call} :
    ∀ {fsm : Fsm} {pending : List MetaRecord}, Gathers fsm pending →
      (∀ call ∈ calls, call.Tagged) → ∃ held, Gathers (fsm.after calls) held := by
  induction calls with
  | nil => exact fun gathers _ => ⟨_, gathers⟩
  | cons call calls ih =>
    intro fsm pending gathers tagged
    have later : ∀ other ∈ calls, other.Tagged :=
      fun other member => tagged other (List.mem_cons_of_mem call member)
    have next : ∃ held, Gathers (fsm.answer call).fsm held := by
      rcases answer_unites gathers (tagged call List.mem_cons_self) with ⟨_, same⟩ | ⟨_, unites⟩
      · rw [same]
        exact ⟨pending, gathers⟩
      · exact ⟨_, unites.gathers⟩
    have ⟨held, holds⟩ := next
    exact ih holds later

/-- From a state that has gathered the tags of the waiting records, every clip of a run carries
the tags of its own. -/
theorem trace_unites {calls : List Call} :
    ∀ {fsm : Fsm} {pending : List MetaRecord}, Gathers fsm pending →
      (∀ call ∈ calls, call.Tagged) →
      List.Forall₂ IsUnionOf (clipRecords pending (heard (fsm.trace calls)))
        (emitted (fsm.trace calls)) := by
  induction calls with
  | nil => exact fun _ _ => .nil
  | cons call calls ih =>
    intro fsm pending gathers tagged
    have later : ∀ other ∈ calls, other.Tagged :=
      fun other member => tagged other (List.mem_cons_of_mem call member)
    rw [Fsm.trace, heard_cons, emitted_cons]
    rcases answer_unites gathers (tagged call List.mem_cons_self) with
      ⟨silent, same⟩ | ⟨audible, unites⟩
    · rw [silent, same]
      exact ih gathers later
    · rw [audible]
      exact List.rel_append unites.clips (ih unites.gathers later)

/-- In every run over records whose sets were built by `sm_event_set_add_tag`, each emitted
clip carries exactly the first sixteen distinct tags of its records, and at no time does the
state's set hold a duplicate, a tag that is empty or too long, or a tag too many. -/
theorem clips_unite_tags (calls : List Call) (tagged : ∀ call ∈ calls, call.Tagged) :
    List.Forall₂ IsUnionOf (clipRecords [] (heard (Fsm.reset.trace calls)))
        (emitted (Fsm.reset.trace calls)) ∧
      (Fsm.reset.after calls).events.Sound := by
  have ⟨held, gathers⟩ := after_gathers gathers_reset tagged
  exact ⟨trace_unites gathers_reset tagged, gathers.built.sound⟩

/-- A chunk with the tags of this range, one letter each. -/
def lettered (seq offset : UInt64) (first count : Nat) : MetaRecord :=
  { MetaRecord.data seq offset 4 0 with
    events := (EventSet.reset.addTags
      ((List.range' first count).map fun code => .ofBytes [UInt8.ofNat code])).1 }

/-- A chunk with ten tags, one that brings more than still fit, an invalid one, and one whose
tags all come too late. -/
def overfullChunks : List Call :=
  [.processRecord (lettered 1 0 65 10) 5000 0, .processRecord (lettered 2 4 70 14) 5000 0,
    .processRecord { lettered 3 8 90 10 with valid := false } 5000 0,
    .processRecord (lettered 3 8 60 10) 5000 0, .flushFinal]

/-- The union at a run whose clip cannot take every tag. -/
theorem clips_unite_tags_overfull :
    List.Forall₂ IsUnionOf (clipRecords [] (heard (Fsm.reset.trace overfullChunks)))
        (emitted (Fsm.reset.trace overfullChunks)) ∧
      (Fsm.reset.after overfullChunks).events.Sound := by
  apply clips_unite_tags overfullChunks
  intro call member
  simp only [overfullChunks, List.mem_cons, List.not_mem_nil, or_false] at member
  rcases member with rfl | rfl | rfl | rfl | rfl
  · exact EventSet.Built.addTags .reset
  · exact EventSet.Built.addTags .reset
  · exact EventSet.Built.addTags .reset
  · exact EventSet.Built.addTags .reset
  · trivial

end StreamPipeline.Merge
