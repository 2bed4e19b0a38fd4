import StreamPipeline.Store.Frame

/-!
# Lifetimes

A row written with a lifetime expires at the sum of the current time and the lifetime, as a
signed word. The text of the lifetime saturates and the sum is not checked, so a long lifetime
ends before it begins. A clip without a path is written as a tombstone, whatever its lifetime.
-/

namespace StreamPipeline.Store

open Codec

/-- The expiration is that of a lifetime in seconds from a time on; zero never expires. -/
def ExpiresAfter (expireAt time : Int64) (seconds : Int) : Prop :=
  expireAt.toInt = if seconds = 0 then 0 else time.toInt + seconds

/-- A row is live for some seconds from a time on and, unless these are none, dead behind them. -/
def Row.LivesFor (row : Row) (time : Int64) (seconds : Int) : Prop :=
  (∀ t : Int64, time ≤ t → t.toInt < time.toInt + seconds → row.isLive t = true) ∧
    (0 < seconds → ∀ t : Int64, time.toInt + seconds ≤ t.toInt → row.isLive t = false)

/-- The row of a write under a lifetime. -/
def Write.row (ttl : Int64) (write : Write) : Row :=
  ⟨write.key, write.value, expiration ttl write.time⟩

/-- The check of `--ttl` on a text that spells an integer. -/
theorem parseTtl_spelled {text : CStr} {value : Int} (spells : spelled text.bytes = some value) :
    parseTtl text = if value < 0 then none else some (saturate value) := by
  have sign : saturate value < 0 ↔ value < 0 := by
    rw [Int64.lt_iff_toInt_lt, toInt_saturate, Int64.toInt_zero]
    omega
  rw [parseTtl, strtol_spelled spells]
  simp only [sign]

/-- An accepted lifetime spells seconds, which the word has as they are or saturated. -/
theorem spelled_of_parseTtl {arg : CStr} {ttl : Int64} (accepted : parseTtl arg = some ttl) :
    ∃ seconds, spelled arg.bytes = some seconds ∧ 0 ≤ seconds ∧
      ttl.toInt = min seconds (2 ^ 63 - 1) := by
  have whole : strtol arg.bytes = some (ttl, []) := by
    unfold parseTtl at accepted
    split at accepted
    · rename_i read parsed
      rw [parsed]
      split at accepted
      · contradiction
      · rw [Option.some.inj accepted]
    · contradiction
  have spells := spelled_of_strtol whole
  obtain ⟨seconds, spells⟩ := Option.isSome_iff_exists.mp spells
  have checked := parseTtl_spelled spells
  rw [accepted] at checked
  by_cases negative : seconds < 0
  · rw [if_pos negative] at checked
    contradiction
  · rw [if_neg negative, Option.some.injEq] at checked
    refine ⟨seconds, spells, by omega, ?_⟩
    rw [checked, toInt_saturate]
    omega

/-- A sum of a time and a lifetime that leaves the word wraps below zero. -/
theorem toInt_expiration_wrapped {ttl time : Int64} (bounded : time.toInt < 2 ^ 40)
    (beyond : 2 ^ 63 ≤ time.toInt + ttl.toInt) :
    (expiration ttl time).toInt = time.toInt + ttl.toInt - 2 ^ 64 := by
  have lasting : ttl ≠ 0 := by
    intro zero
    rw [zero, Int64.toInt_zero] at beyond
    omega
  have upper := ttl.toInt_lt
  rw [expiration, if_neg lasting, Int64.toInt_add, Int.bmod_def]
  omega

/-- The expiration is that of the spelled lifetime exactly when the sum fits the word. -/
theorem expiresAfter_iff {ttl time : Int64} {seconds : Int} (started : 0 < time.toInt)
    (bounded : time.toInt < 2 ^ 40) (counted : 0 ≤ seconds)
    (word : ttl.toInt = min seconds (2 ^ 63 - 1)) :
    ExpiresAfter (expiration ttl time) time seconds ↔
      seconds = 0 ∨ time.toInt + seconds < 2 ^ 63 := by
  have zero : ttl = 0 ↔ seconds = 0 := by
    rw [← Int64.toInt_inj, Int64.toInt_zero]
    omega
  have valid : 0 ≤ ttl := by
    rw [Int64.le_iff_toInt_le, Int64.toInt_zero]
    omega
  unfold ExpiresAfter
  by_cases fits : time.toInt + ttl.toInt < 2 ^ 63
  · rw [toInt_expiration valid fits]
    simp only [zero]
    split <;> omega
  · rw [toInt_expiration_wrapped bounded (by omega)]
    split <;> omega

/-- A row whose expiration wrapped is dead at the time of its write. -/
theorem Row.isLive_wrapped {row : Row} {ttl time : Int64}
    (expires : row.expireAt = expiration ttl time) (bounded : time.toInt < 2 ^ 40)
    (started : 0 < time.toInt) (beyond : 2 ^ 63 ≤ time.toInt + ttl.toInt) :
    row.isLive time = false := by
  have wrapped := toInt_expiration_wrapped bounded beyond
  have upper := ttl.toInt_lt
  rw [← expires] at wrapped
  rw [← Bool.not_eq_true, row.isLive_iff]
  rintro ⟨-, never | later⟩
  · have zero : row.expireAt.toInt = 0 := never
    omega
  · have past : time.toInt < row.expireAt.toInt := later
    omega

/-- A row is live exactly for its lifetime from its write on when the sum fits the word and its
value is not empty; a row of no lifetime has nothing to keep. -/
theorem Row.livesFor_iff {row : Row} {ttl time : Int64} {seconds : Int}
    (expires : row.expireAt = expiration ttl time) (started : 0 < time.toInt)
    (bounded : time.toInt < 2 ^ 40) (counted : 0 ≤ seconds)
    (word : ttl.toInt = min seconds (2 ^ 63 - 1)) :
    row.LivesFor time seconds ↔
      seconds = 0 ∨ time.toInt + seconds < 2 ^ 63 ∧ row.value.bytes ≠ [] := by
  constructor
  · intro lives
    by_cases none : seconds = 0
    · exact .inl none
    · -- the row has to be live at the time of its write
      have fresh := lives.1 time (Int64.le_refl time) (by omega)
      refine .inr ⟨?_, ((row.isLive_iff time).mp fresh).1⟩
      by_contra beyond
      have dead := row.isLive_wrapped expires bounded started (by omega)
      rw [fresh] at dead
      contradiction
  · rintro (none | ⟨fits, filled⟩)
    · constructor
      · intro t later before
        rw [Int64.le_iff_toInt_le] at later
        omega
      · intro positive
        omega
    · have exact := (expiresAfter_iff started bounded counted word).mpr (.inr fits)
      rw [← expires] at exact
      have shows : ∀ t, row.isLive t = true ↔ seconds = 0 ∨ t.toInt < time.toInt + seconds := by
        intro t
        rw [row.isLive_iff, and_iff_right filled]
        show row.expireAt.toInt = 0 ∨ t.toInt < row.expireAt.toInt ↔ _
        rw [exact]
        split <;> omega
      constructor
      · intro t later before
        exact (shows t).mpr (.inr before)
      · intro positive t later
        rw [← Bool.not_eq_true, shows]
        omega

/-! ## Writes of an invocation -/

/-- An invocation that accepts a write appends rows, and deletes none. -/
theorem Invocation.writes_mode {cjson : CJson} {run : Invocation} {write : Write}
    (written : write ∈ run.writes cjson) : run.mode.Writes ∧ run.deletes = none := by
  unfold Invocation.writes at written
  unfold Invocation.deletes
  cases mode : run.mode with
  | append | set => exact ⟨trivial, rfl⟩
  | get | delete | list | withPrefix | compact =>
    rw [mode] at written
    contradiction

/-- The file behind an invocation that accepts writes. -/
theorem clipStoreMain_writes (miniz : Miniz) {cjson : CJson} {run : Invocation} {ttl : Int64}
    (accepted : parseTtl run.ttlArg = some ttl) {earlier later : List Write} {write : Write}
    (written : run.writes cjson = earlier ++ write :: later) (db : Bytes) :
    (clipStoreMain miniz cjson run db).db =
      db ++ rowLines miniz (earlier.map (Write.row ttl)) ++
        rowLine write.key.bytes (valueField miniz write.value) (expiration ttl write.time) ++
        rowLines miniz (later.map (Write.row ttl)) := by
  have member : write ∈ run.writes cjson := by
    rw [written]
    exact List.mem_append_right earlier List.mem_cons_self
  have mode := Invocation.writes_mode member
  have rows : run.rows cjson = (run.writes cjson).map (Write.row ttl) := by
    rw [Invocation.rows, accepted]
    simp only [mode.2]
    rfl
  rw [(clipStoreMain_rows miniz cjson mode.1 db).1, rows, written]
  simp [rowLines, Write.row]

/-- The row read back under the key of a written line is the written row. -/
theorem eq_of_mem_rowsOf_rowLine {miniz : Miniz} (lawful : miniz.Lawful) {key value : CStr}
    {expireAt : Int64} {row : Row}
    (read : row ∈ rowsOf miniz (rowLine key.bytes (valueField miniz value) expireAt))
    (same : row.key = key) : row = ⟨key, value, expireAt⟩ := by
  have clean : Clean row.key := by
    rw [rowsOf, ← scanned_none miniz 0] at read
    exact clean_of_scanned read
  rw [same] at clean
  rw [rowsOf_rowLine lawful clean] at read
  exact List.mem_singleton.mp read

/-- Every accepted write expires at the exact sum, and its row, read back under its key, lives
exactly for the spelled seconds, if and only if these are none or the sum fits the word and, for
the row, the value is not empty. -/
theorem lifetime_iff {miniz : Miniz} (lawful : miniz.Lawful) (cjson : CJson) {run : Invocation}
    {ttl : Int64} (accepted : parseTtl run.ttlArg = some ttl) {earlier later : List Write}
    {write : Write} (written : run.writes cjson = earlier ++ write :: later)
    (started : 0 < write.time.toInt) (bounded : write.time.toInt < 2 ^ 40) (db : Bytes) :
    ∃ seconds, spelled run.ttlArg.bytes = some seconds ∧ 0 ≤ seconds ∧
      (clipStoreMain miniz cjson run db).db =
        db ++ rowLines miniz (earlier.map (Write.row ttl)) ++
          rowLine write.key.bytes (valueField miniz write.value) (expiration ttl write.time) ++
          rowLines miniz (later.map (Write.row ttl)) ∧
      (ExpiresAfter (expiration ttl write.time) write.time seconds ↔
        seconds = 0 ∨ write.time.toInt + seconds < 2 ^ 63) ∧
      ∀ row ∈ rowsOf miniz (rowLine write.key.bytes (valueField miniz write.value)
          (expiration ttl write.time)),
        row.key = write.key →
          (row.LivesFor write.time seconds ↔
            seconds = 0 ∨ write.time.toInt + seconds < 2 ^ 63 ∧ write.value.bytes ≠ []) := by
  obtain ⟨seconds, spells, counted, word⟩ := spelled_of_parseTtl accepted
  refine ⟨seconds, spells, counted,
    clipStoreMain_writes miniz accepted written db,
    expiresAfter_iff started bounded counted word, ?_⟩
  intro row read same
  have whole := eq_of_mem_rowsOf_rowLine lawful read same
  have expires : row.expireAt = expiration ttl write.time := congrArg Row.expireAt whole
  have value : row.value = write.value := congrArg Row.value whole
  rw [← value]
  exact row.livesFor_iff expires started bounded counted word

/-- `--set k=v` with a time to live. -/
def setLasting (ttl : String) (now : Int64) : Invocation :=
  ⟨.set (.ofBytes (ascii "k=v")), .ofBytes (ascii ttl), .ofBytes (ascii "clips.db"), now,
    fun _ => now⟩

/-- A write that lasts five minutes. -/
theorem lifetime_iff_minutes :
    ∃ seconds, spelled (setLasting "300" 1000).ttlArg.bytes = some seconds ∧ 0 ≤ seconds ∧
      (clipStoreMain sampleMiniz oneClipJson (setLasting "300" 1000) []).db =
        [] ++ rowLines sampleMiniz (([] : List Write).map (Write.row 300)) ++
          rowLine (CStr.ofBytes (ascii "k")).bytes
            (valueField sampleMiniz (.ofBytes (ascii "v"))) (expiration 300 1000) ++
          rowLines sampleMiniz (([] : List Write).map (Write.row 300)) ∧
      (ExpiresAfter (expiration 300 1000) 1000 seconds ↔
        seconds = 0 ∨ (1000 : Int64).toInt + seconds < 2 ^ 63) ∧
      ∀ row ∈ rowsOf sampleMiniz (rowLine (CStr.ofBytes (ascii "k")).bytes
          (valueField sampleMiniz (.ofBytes (ascii "v"))) (expiration 300 1000)),
        row.key = .ofBytes (ascii "k") →
          (row.LivesFor 1000 seconds ↔
            seconds = 0 ∨ (1000 : Int64).toInt + seconds < 2 ^ 63 ∧
              (CStr.ofBytes (ascii "v")).bytes ≠ []) :=
  @lifetime_iff sampleMiniz sampleMiniz_lawful oneClipJson (setLasting "300" 1000) 300 (by decide)
    [] [] ⟨.ofBytes (ascii "k"), .ofBytes (ascii "v"), 1000⟩ rfl (by decide) (by decide) []

/-- The longest lifetime `--ttl` spells in a word, from the first second on. -/
def setLongest : Invocation := setLasting "9223372036854775807" 1

/-- The longest lifetime is accepted, and its row is expired when it is written. -/
theorem longest_lifetime_expired :
    parseTtl setLongest.ttlArg = some Int64.maxValue ∧
      spelled setLongest.ttlArg.bytes = some 9223372036854775807 ∧
      (clipStoreMain sampleMiniz oneClipJson setLongest []).status = 0 ∧
      rowsOf sampleMiniz (clipStoreMain sampleMiniz oneClipJson setLongest []).db =
        [⟨.ofBytes (ascii "k"), .ofBytes (ascii "v"), Int64.minValue⟩] ∧
      ¬ExpiresAfter Int64.minValue 1 9223372036854775807 ∧
      ¬Row.LivesFor ⟨.ofBytes (ascii "k"), .ofBytes (ascii "v"), Int64.minValue⟩ 1
        9223372036854775807 := by
  refine ⟨by decide, by decide, by decide, ?_, ?_, ?_⟩
  · have rows : setLongest.rows oneClipJson =
        [⟨.ofBytes (ascii "k"), .ofBytes (ascii "v"), Int64.minValue⟩] := by decide
    have file := clipStoreMain_rows sampleMiniz oneClipJson
      (show setLongest.mode.Writes from trivial) []
    rw [file.1, rows, List.nil_append, rowsOf_rowLines sampleMiniz_lawful (by decide)]
  · unfold ExpiresAfter
    decide
  · intro lives
    have fresh := lives.1 1 (by decide) (by decide)
    exact absurd fresh (by decide)

end StreamPipeline.Store
