import StreamPipeline.Merge.Emit
import StreamPipeline.Merge.Run

/-!
# Metadata lines

A line of the meta file is parsed, fed to the clip state machine, and the clip it closes is
printed. A line that does not parse is skipped; a clip whose path does not fit ends the program.
-/

namespace StreamPipeline.Merge

open Codec

/-- The arguments of the applet. -/
structure Session where
  /-- `session`. -/
  session : CStr
  /-- `src`. -/
  src : CStr
  /-- `clip_ms`. -/
  clipMs : Int64
  /-- `idle_ms`. -/
  idleMs : Int64

/-- `sm_reader_parse_line` — `events` stays empty. -/
def smReaderParseLine (cjson : CJson) (line : CStr) : Option MetaRecord :=
  match jsonlGetString cjson line (.ofBytes (ascii "kind")) 16 with
  | none => none
  | some kind =>
    match jsonlGetUInt64 cjson line (.ofBytes (ascii "sequence")) with
    | none => none
    | some seq =>
      match jsonlGetUInt64 cjson line (.ofBytes (ascii "offset")) with
      | none => none
      | some offset =>
        match jsonlGetUInt64 cjson line (.ofBytes (ascii "length")) with
        | none => none
        | some length =>
          match jsonlGetInt64 cjson line (.ofBytes (ascii "ts_ms")) with
          | none => none
          | some tsMs => some {
              kind, seq, offset, length, tsMs
              events := .reset
              valid := true }

section Lines

variable (cjson : CJson) (session : Session)

/-- `handle_action`: the printed bytes, or none when printing fails. -/
def handleAction (answer : Answer) : Option Bytes :=
  match answer.action, answer.out with
  | .emitComplete, some clip => emitClip cjson clip session.src session.session true
  | .emitPartial, some clip => emitClip cjson clip session.src session.session false
  -- Without a snapshot the clip is the zeroed one, which is not active.
  | _, _ => some []

/-- A line handed to the parser: the state and the printed bytes. -/
def handleLine (fsm : Fsm) (nowMs : Int64) (line : Bytes) : Option (Fsm × Bytes) :=
  match smReaderParseLine cjson (.ofBytes line) with
  | none => some (fsm, [])
  | some rec =>
    if rec.valid ∧ rec.kind.bytes = ascii "data" then
      let answer := fsm.processRecord rec session.clipMs nowMs
      (handleAction cjson session answer).map fun printed => (answer.fsm, printed)
    else some (fsm, [])

/-- `check_idle`. -/
def checkIdle (fsm : Fsm) (nowMs : Int64) : Option (Fsm × Bytes) :=
  let answer := fsm.checkIdle session.idleMs nowMs
  (handleAction cjson session answer).map fun printed => (answer.fsm, printed)

/-- The final flush. -/
def flushFinal (fsm : Fsm) : Option (Fsm × Bytes) :=
  let answer := fsm.flushFinal
  (handleAction cjson session answer).map fun printed => (answer.fsm, printed)

end Lines

/-! ## The ranges of a parsed record -/

/-- A whole number inside the bounds of the getters is an integer in the exact range. -/
private theorem natAbs_le {value : Int}
    (bounds : ¬((value : Rat) < -jsonlMaxSafeInteger ∨ jsonlMaxSafeInteger < (value : Rat))) :
    value.natAbs ≤ maxSafeInteger := by
  have bound : jsonlMaxSafeInteger = ((9007199254740991 : Int) : Rat) := by rfl
  rw [not_or, Rat.not_lt, Rat.not_lt, bound, ← Rat.intCast_neg, Rat.intCast_le_intCast,
    Rat.intCast_le_intCast] at bounds
  rw [maxSafeInteger]
  omega

/-- An unsigned integer a getter returns is in the exact range. -/
theorem jsonlGetUInt64_le {cjson : CJson} {line key : CStr} {value : UInt64}
    (found : jsonlGetUInt64 cjson line key = some value) : value.toNat ≤ maxSafeInteger := by
  unfold jsonlGetUInt64 at found
  split at found
  · rename_i double _
    split at found
    · contradiction
    · rename_i bounds
      dsimp only at found
      split at found
      · contradiction
      · rename_i whole
        have whole := Decidable.not_not.mp whole
        rw [← Option.some.inj found]
        generalize double.num.tdiv double.den = v at whole
        subst whole
        obtain ⟨positive, upper⟩ := not_or.mp bounds
        have nonneg : 0 ≤ v := Rat.intCast_nonneg.mp (Rat.not_lt.mp positive)
        have lower : -jsonlMaxSafeInteger ≤ 0 := by decide
        have small := natAbs_le
          (not_or.mpr ⟨Rat.not_lt.mpr (lower.trans (Rat.not_lt.mp positive)), upper⟩)
        rw [UInt64.toNat_ofNat']
        rw [maxSafeInteger] at small ⊢
        omega
  · contradiction

/-- A signed integer a getter returns is in the exact range. -/
theorem jsonlGetInt64_le {cjson : CJson} {line key : CStr} {value : Int64}
    (found : jsonlGetInt64 cjson line key = some value) :
    value.toInt.natAbs ≤ maxSafeInteger := by
  unfold jsonlGetInt64 at found
  split at found
  · rename_i double _
    split at found
    · contradiction
    · rename_i bounds
      dsimp only at found
      split at found
      · contradiction
      · rename_i whole
        have whole := Decidable.not_not.mp whole
        rw [← Option.some.inj found]
        generalize double.num.tdiv double.den = v at whole
        subst whole
        have small := natAbs_le bounds
        rw [maxSafeInteger] at small
        rw [Int64.toInt_ofInt_of_le (by omega) (by omega)]
        exact small
  · contradiction

/-- The parser establishes the ranges the state machine relies on. -/
theorem parsed_of_smReaderParseLine {cjson : CJson} {line : CStr} {rec : MetaRecord}
    (found : smReaderParseLine cjson line = some rec) : rec.Parsed := by
  unfold smReaderParseLine at found
  split at found
  · contradiction
  split at found
  · contradiction
  rename_i seq seqFound
  split at found
  · contradiction
  rename_i offset offsetFound
  split at found
  · contradiction
  rename_i length lengthFound
  split at found
  · contradiction
  rename_i tsMs tsMsFound
  rw [← Option.some.inj found]
  exact {
    valid := rfl
    seq := jsonlGetUInt64_le seqFound
    offset := jsonlGetUInt64_le offsetFound
    length := jsonlGetUInt64_le lengthFound
    tsMs := jsonlGetInt64_le tsMsFound }

end StreamPipeline.Merge
