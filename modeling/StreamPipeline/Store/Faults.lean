import StreamPipeline.Store.Compact

/-!
# Compaction under failures

A compaction must fail and leave the database alone, or keep every live row and revive none.
Every failure it notices meets this. A line it cannot read for want of memory is skipped like a
malformed one, so the outcome hangs on whether the skipped lines carried an answer.
-/

namespace StreamPipeline.Store

/-- The compaction failed and the database is unchanged, or it succeeded, every live row is still
live with its value and expiration, and nothing dead has become live. -/
def KeepsData (miniz : Miniz) (silent : SilentFaults) (faults : CompactFaults) (dbPath : CStr)
    (now : Int64) (files : Files) : Prop :=
  let result := dbRewriteCompact miniz silent faults dbPath now files
  (result.1 = -1 ∧ result.2.db = files.db) ∨
    (result.1 = 0 ∧ ∀ key,
      (∀ row, visible (rowsOf miniz files.db) now key = some row →
        ∃ kept, visible (rowsOf miniz result.2.db) now key = some kept ∧
          kept.value = row.value ∧ kept.expireAt = row.expireAt) ∧
      (visible (rowsOf miniz files.db) now key = none →
        visible (rowsOf miniz result.2.db) now key = none))

/-- The lines left unread for want of memory carry no answer: for every key the lines that were
read show what all lines show. -/
def Harmless (miniz : Miniz) (silent : SilentFaults) (now : Int64) (content : Bytes) : Prop :=
  ∀ key, visible (scanned miniz silent 0 (lines content)) now key =
    visible (rowsOf miniz content) now key

/-- A row shown for a key has the key. -/
theorem key_of_visible {rows : List Row} {now : Int64} {key : CStr} {row : Row}
    (shown : visible rows now key = some row) : row.key = key :=
  (latest_mem (Option.filter_eq_some_iff.mp shown).1).2

/-- What was found live is shown after the compaction. -/
theorem Compacted.visible_eq {miniz : Miniz} {silent : SilentFaults} {now : Int64}
    {before after : Files} (compacted : Compacted miniz silent now before after) (key : CStr) :
    visible (rowsOf miniz after.db) now key =
      visible (scanned miniz silent 0 (lines before.db)) now key := by
  rw [visible, compacted.latest_eq]
  unfold visible
  apply Option.ext
  intro row
  simp only [Option.filter_eq_some_iff]
  exact ⟨fun shown => shown.1, fun shown => ⟨shown, shown.2⟩⟩

/-- A successful compaction keeps the data exactly when the unread lines carry no answer. -/
theorem Compacted.keeps_iff {miniz : Miniz} {silent : SilentFaults} {now : Int64}
    {before after : Files} (compacted : Compacted miniz silent now before after) :
    (∀ key,
      (∀ row, visible (rowsOf miniz before.db) now key = some row →
        ∃ kept, visible (rowsOf miniz after.db) now key = some kept ∧
          kept.value = row.value ∧ kept.expireAt = row.expireAt) ∧
      (visible (rowsOf miniz before.db) now key = none →
        visible (rowsOf miniz after.db) now key = none)) ↔
      Harmless miniz silent now before.db := by
  apply forall_congr'
  intro key
  rw [compacted.visible_eq]
  constructor
  · rintro ⟨lives, dead⟩
    cases shown : visible (rowsOf miniz before.db) now key with
    | none => exact dead shown
    | some row =>
      obtain ⟨kept, found, value, expireAt⟩ := lives row shown
      have keys := (key_of_visible found).trans (key_of_visible shown).symm
      rw [found]
      cases kept
      cases row
      simp_all
  · intro same
    rw [same]
    exact ⟨fun row shown => ⟨row, shown, rfl, rfl⟩, id⟩

/-- A compaction that nothing makes fail keeps the data only when the unread lines carry no
answer. -/
theorem harmless_of_keepsData {miniz : Miniz} (lawful : miniz.Lawful) {silent : SilentFaults}
    {dbPath : CStr} (short : dbPath.bytes.length + 4 < pathMax) {now : Int64} {files : Files}
    (keeps : KeepsData miniz silent .none dbPath now files) :
    Harmless miniz silent now files.db := by
  obtain ⟨after, run⟩ := dbRewriteCompact_none miniz silent short now files
  rw [KeepsData, run] at keeps
  rcases dbRewriteCompact_outcome lawful run with ⟨failed, -⟩ | ⟨-, compacted⟩
  · contradiction
  · rcases keeps with ⟨failed, -⟩ | ⟨-, kept⟩
    · contradiction
    · exact compacted.keeps_iff.mp kept

/-- Whatever else fails, a compaction keeps the data exactly when its path leaves no room for the
temporary name or the lines it could not read for want of memory carry no answer. -/
theorem keepsData_iff_harmless {miniz : Miniz} (lawful : miniz.Lawful) (silent : SilentFaults)
    (dbPath : CStr) (now : Int64) (files : Files) :
    (∀ faults, KeepsData miniz silent faults dbPath now files) ↔
      pathMax ≤ dbPath.bytes.length + 4 ∨ Harmless miniz silent now files.db := by
  constructor
  · intro keeps
    by_cases long : pathMax ≤ dbPath.bytes.length + 4
    · exact .inl long
    · exact .inr (harmless_of_keepsData lawful (Nat.lt_of_not_le long) (keeps .none))
  · rintro (long | harmless) faults
    · rw [KeepsData, dbRewriteCompact_long miniz silent faults long]
      exact .inl ⟨rfl, rfl⟩
    · rcases dbRewriteCompact_outcome lawful rfl with failed | ⟨succeeded, compacted⟩
      · exact .inl failed
      · exact .inr ⟨succeeded, compacted.keeps_iff.mpr harmless⟩

/-- One compressed row read whole. -/
theorem keepsData_iff_harmless_oneRow :
    (∀ faults, KeepsData sampleMiniz .none faults (.ofBytes (ascii "clips.db")) 100
      ⟨ascii "k\tZ:eJwrAwAAdwB3\t0\n", none⟩) ↔
      pathMax ≤ (CStr.ofBytes (ascii "clips.db")).bytes.length + 4 ∨
        Harmless sampleMiniz .none 100 (ascii "k\tZ:eJwrAwAAdwB3\t0\n") :=
  keepsData_iff_harmless sampleMiniz_lawful .none _ _ _

/-- The decode buffer of the first line is not allocated. -/
def firstLineStarved : SilentFaults :=
  ⟨fun _ => false, fun number => if number = 0 then ⟨true, false, fun _ => false, fun _ => false⟩
    else .none⟩

/-- A live row whose decode buffer is not allocated is dropped by a compaction that succeeds. -/
theorem starved_row_dropped :
    ¬KeepsData sampleMiniz firstLineStarved .none (.ofBytes (ascii "clips.db")) 100
      ⟨ascii "k\tZ:eJwrAwAAdwB3\t0\n", none⟩ := by
  intro keeps
  have harmless := harmless_of_keepsData sampleMiniz_lawful (by decide) keeps (.ofBytes (ascii "k"))
  have text : ascii "k\tZ:eJwrAwAAdwB3\t0\n" =
      (rowText sampleMiniz (.ofBytes (ascii "k")) (.ofBytes (ascii "v")) 0).bytes ++ [lf] := by
    decide
  have row : rowsOf sampleMiniz (ascii "k\tZ:eJwrAwAAdwB3\t0\n") =
      [⟨.ofBytes (ascii "k"), .ofBytes (ascii "v"), 0⟩] := by
    rw [text, ← rowLine_eq]
    exact rowsOf_rowLine sampleMiniz_lawful (by decide) _ _
  have unread : scanned sampleMiniz firstLineStarved 0
      (lines (ascii "k\tZ:eJwrAwAAdwB3\t0\n")) = [] := by decide
  rw [unread, row] at harmless
  exact absurd harmless (by decide)

end StreamPipeline.Store
