import StreamPipeline.Store.Index

/-!
# Appending behind a torn line

A crash or a failed write can leave a last line without its line feed. `append_db_row` does not
look at it, so the new row is glued to the torn bytes and both are read as one line. What that
line is depends on the torn bytes alone.
-/

namespace StreamPipeline.Store

/-- The bytes behind the last line feed of a file. -/
def tornTail (content : Bytes) : Bytes := (cutLines content).2

/-- The lines of a file in front of its torn tail. -/
def wholeLines (content : Bytes) : Bytes := joinLines (cutLines content).1

/-- A carriage return or a terminator in the torn tail ends its line before the new row. -/
def Sealed (torn : Bytes) : Prop := cr ∈ torn ∨ 0 ∈ torn

instance (torn : Bytes) : Decidable (Sealed torn) := by
  unfold Sealed
  infer_instance

/-- The rows of a file that are still read behind a torn tail once a row is glued to it. -/
def survivors (miniz : Miniz) (content : Bytes) : List Row :=
  if Sealed (tornTail content) then rowsOf miniz content
  else rowsOf miniz (wholeLines content)

/-- The row the gluing makes, when the torn tail has no tab: its key begins with the torn
bytes. -/
def glued (content : Bytes) (row : Row) : Option Row :=
  if Sealed (tornTail content) ∨ tab ∈ tornTail content then none
  else some { row with key := .ofBytes (tornTail content ++ row.key.bytes) }

/-- After every successful append the loaded index has the new row as the latest of its key, and
every other key has the latest row it had. -/
def AppendSurvives (miniz : Miniz) (content : Bytes) (row : Row) : Prop :=
  ∀ faults line, appendDbRow miniz faults row.key row.value row.expireAt = some line →
    ∀ before after, loadLatestRows miniz .none .none content = some before →
      loadLatestRows miniz .none .none (content ++ line) = some after →
      after.get row.key = some row ∧ ∀ other, other ≠ row.key → after.get other = before.get other

/-- The gluing changes no answer: the row was there before, the row it makes was there before,
and a row the torn tail held was there before. -/
structure GluingHidden (miniz : Miniz) (content : Bytes) (row : Row) : Prop where
  kept : latest (survivors miniz content) row.key = some row
  made : ∀ other ∈ glued content row, latest (survivors miniz content) other.key = some other
  lost : ∀ old ∈ parseDbRow miniz .none (chomp (tornTail content)), old.key ≠ row.key →
    latest (survivors miniz content) old.key = some old

/-! ## The glued line -/

/-- A text that is one line has the row of that line. -/
theorem rowsOf_of_lines (miniz : Miniz) {text : Bytes} (single : lines text = [text]) :
    rowsOf miniz text = (parseDbRow miniz .none (chomp text)).toList := by
  rw [rowsOf, single, List.filterMap_cons]
  cases parseDbRow miniz .none (chomp text) <;> rfl

/-- The rows of a file are those of its whole lines and of what follows them. -/
theorem rowsOf_wholeLines (miniz : Miniz) (content later : Bytes) :
    rowsOf miniz (content ++ later) =
      rowsOf miniz (wholeLines content) ++ rowsOf miniz (tornTail content ++ later) := by
  have complete : Complete (wholeLines content) := complete_joinLines _
  have whole : wholeLines content ++ tornTail content = content := joinLines_cutLines content
  rw [← rowsOf_append miniz complete, ← List.append_assoc, whole]

/-- The torn tail has at most one row. -/
theorem rowsOf_torn (miniz : Miniz) {content : Bytes} (torn : tornTail content ≠ []) :
    rowsOf miniz content = rowsOf miniz (wholeLines content) ++
      (parseDbRow miniz .none (chomp (tornTail content))).toList := by
  have split := rowsOf_wholeLines miniz content []
  have single := lines_of_not_mem torn (not_mem_cutLines_snd content)
  rwa [List.append_nil, List.append_nil, rowsOf_of_lines miniz single] at split

/-- Only numeric bytes can stand behind the second tab of a row. -/
theorem isNumeric_of_splitRow {key value rest : Bytes} (keyTab : tab ∉ key)
    (valueTab : tab ∉ value) {fields : Bytes × Bytes × Int64}
    (split : splitRow (key ++ tab :: (value ++ tab :: rest)) = some fields) {byte : UInt8}
    (member : byte ∈ rest) : isNumeric byte = true := by
  simp only [splitRow, cutAt_append keyTab, cutAt_append valueTab] at split
  cases read : strtol rest with
  | none => simp [read] at split
  | some result =>
    obtain ⟨value, stop⟩ := result
    cases stop with
    | nil => exact isNumeric_of_strtol read member
    | cons byte stop => simp [read] at split

/-- The mark of a written value is not numeric. -/
theorem mark_mem_valueField (miniz : Miniz) {value : CStr} (nonempty : value.bytes ≠ []) :
    (90 : UInt8) ∈ valueField miniz value := by
  rw [valueField, if_neg (by simpa using nonempty)]
  exact List.mem_append_left _ (by decide)

/-- A tab in front of a written row spoils its line: the mark comes to stand where the time is
read. -/
theorem splitRow_glued (miniz : Miniz) {torn : Bytes} (torn_tab : tab ∈ torn) {key value : CStr}
    (keyTab : tab ∉ key.bytes) (nonempty : value.bytes ≠ []) (expireAt : Int64) :
    splitRow (torn ++ (rowText miniz key value expireAt).bytes) = none := by
  have mark := mark_mem_valueField miniz nonempty
  obtain ⟨first, later, rfl, firstTab⟩ := List.eq_append_cons_of_mem torn_tab
  cases split : splitRow (first ++ tab :: later ++ (rowText miniz key value expireAt).bytes) with
  | none => rfl
  | some fields =>
    exfalso
    by_cases second : tab ∈ later
    · obtain ⟨middle, last, rfl, middleTab⟩ := List.eq_append_cons_of_mem second
      have shape : first ++ tab :: (middle ++ tab :: last) ++ (rowText miniz key value expireAt).bytes =
          first ++ tab :: (middle ++ tab :: (last ++ (rowText miniz key value expireAt).bytes)) := by
        simp
      rw [shape] at split
      have numeric : isNumeric 90 = true :=
        isNumeric_of_splitRow firstTab middleTab split (by simp [rowText, mark])
      exact absurd numeric (by decide)
    · have shape : first ++ tab :: later ++ (rowText miniz key value expireAt).bytes =
          first ++ tab :: (later ++ key.bytes ++ tab ::
            (valueField miniz value ++ tab :: decimal expireAt.toInt)) := by
        simp [rowText]
      rw [shape] at split
      have numeric : isNumeric 90 = true :=
        isNumeric_of_splitRow firstTab (by simp [second, keyTab]) split (by simp [mark])
      exact absurd numeric (by decide)

/-- A row appended behind a torn tail leaves the surviving rows and the one the gluing makes. -/
theorem rowsOf_append_torn {miniz : Miniz} (lawful : miniz.Lawful) {content : Bytes}
    (torn : tornTail content ≠ []) {row : Row} (clean : Clean row.key)
    (nonempty : row.value.bytes ≠ []) :
    rowsOf miniz
        (content ++ rowLine row.key.bytes (valueField miniz row.value) row.expireAt) =
      survivors miniz content ++ (glued content row).toList := by
  obtain ⟨keyTab, keyCr, keyLf⟩ := clean
  have textCr := not_mem_rowText miniz row.value row.expireAt (by decide) (by decide) keyCr
  have textLf := not_mem_rowText miniz row.value row.expireAt (by decide) (by decide) keyLf
  have tornLf : lf ∉ tornTail content := not_mem_cutLines_snd content
  rw [rowsOf_wholeLines, rowLine_eq, ← List.append_assoc]
  have single : lines (tornTail content ++ (rowText miniz row.key row.value row.expireAt).bytes ++
      [lf]) = [tornTail content ++ (rowText miniz row.key row.value row.expireAt).bytes ++ [lf]] :=
    lines_cons (by simp [tornLf, textLf]) []
  rw [rowsOf_of_lines miniz single, survivors, glued]
  by_cases ended : Sealed (tornTail content)
  · -- The line ends inside the torn tail, so the new row is not read.
    have cut : chomp (tornTail content ++
        ((rowText miniz row.key row.value row.expireAt).bytes ++ [lf])) =
        chomp (tornTail content) := by
      rcases ended with carriage | terminator
      · exact chomp_append_of_mem carriage (.inl rfl) _
      · exact chomp_append_of_mem terminator (.inr (.inr rfl)) _
    rw [if_pos ended, if_pos (.inl ended), List.append_assoc, cut, ← rowsOf_torn miniz torn]
    simp
  · obtain ⟨tornCr, tornNul⟩ := not_or.mp ended
    let line : CStr := ⟨tornTail content ++ (rowText miniz row.key row.value row.expireAt).bytes,
      by simp [tornNul, CStr.nulFree]⟩
    have whole : chomp (line.bytes ++ [lf]) = line :=
      chomp_snoc (by simp [line, tornCr, textCr]) (by simp [line, tornLf, textLf])
    have read : parseDbRow miniz .none (chomp (line.bytes ++ [lf])) =
        if Sealed (tornTail content) ∨ tab ∈ tornTail content then none
        else some { row with key := .ofBytes (tornTail content ++ row.key.bytes) } := by
      rw [whole, parseDbRow]
      by_cases tornTab : tab ∈ tornTail content
      · rw [if_pos (.inr tornTab), splitRow_glued miniz tornTab keyTab nonempty]
      · have fieldTab : tab ∉ valueField miniz row.value :=
          not_mem_valueField miniz row.value (by decide)
        have split := splitRow_fields (show tab ∉ tornTail content ++ row.key.bytes by
          simp [tornTab, keyTab]) fieldTab row.expireAt
        have shape : line.bytes = tornTail content ++ row.key.bytes ++ tab ::
            (valueField miniz row.value ++ tab :: decimal row.expireAt.toInt) := by
          simp [line, rowText]
        rw [shape, split, if_neg (not_or.mpr ⟨ended, tornTab⟩)]
        simp [decodeValue_valueField lawful]
    rw [if_neg ended, ← read]

/-! ## When nothing is lost -/

/-- A row that is the latest of its key already changes no answer. -/
theorem latest_append_repeated {rows : List Row} {row : Row}
    (already : latest rows row.key = some row) (key : CStr) :
    latest (rows ++ [row]) key = latest rows key := by
  rw [latest_append, latest_singleton]
  split
  · rename_i same
    rw [← same, already]
    rfl
  · rfl

/-- A row of another key changes no answer. -/
theorem latest_append_other {rows : List Row} {row : Row} {key : CStr} (other : row.key ≠ key) :
    latest (rows ++ [row]) key = latest rows key := by
  rw [latest_append, latest_singleton, if_neg other]
  rfl

/-- The last row is the latest of its key. -/
theorem latest_append_self (rows : List Row) (row : Row) :
    latest (rows ++ [row]) row.key = some row := by
  rw [latest_append, latest_singleton, if_pos rfl]
  rfl

/-- An append survives when the latest rows are the new one and the old ones. -/
theorem appendSurvives_iff_latest (miniz : Miniz) (content : Bytes) (row : Row) :
    AppendSurvives miniz content row ↔
      let after := content ++ rowLine row.key.bytes (valueField miniz row.value) row.expireAt
      latest (rowsOf miniz after) row.key = some row ∧ ∀ other, other ≠ row.key →
        latest (rowsOf miniz after) other = latest (rowsOf miniz content) other := by
  obtain ⟨before, loadedBefore, answersBefore⟩ := exists_loadLatestRows miniz content
  obtain ⟨after, loadedAfter, answersAfter⟩ := exists_loadLatestRows miniz
    (content ++ rowLine row.key.bytes (valueField miniz row.value) row.expireAt)
  simp only [← answersBefore, ← answersAfter]
  constructor
  · intro survives
    exact survives .none _ (appendDbRow_none miniz _ _ _) before after loadedBefore loadedAfter
  · intro answers faults line written first second loadedFirst loadedSecond
    obtain rfl := appendDbRow_faults written
    obtain rfl := Option.some.inj (loadedBefore.symm.trans loadedFirst)
    obtain rfl := Option.some.inj (loadedAfter.symm.trans loadedSecond)
    exact answers

/-- Behind a complete file a row is the latest of its key and hides no other. -/
theorem appendSurvives_of_complete {miniz : Miniz} (lawful : miniz.Lawful) {content : Bytes}
    (complete : Complete content) {row : Row} (clean : Clean row.key) :
    AppendSurvives miniz content row := by
  rw [appendSurvives_iff_latest]
  dsimp only
  rw [rowsOf_append miniz complete, rowsOf_rowLine lawful clean]
  refine ⟨?_, fun other different => ?_⟩
  · exact latest_append_self _ row
  · exact latest_append_other (Ne.symm different)

/-- The row the gluing makes has another key. -/
theorem glued_key {content : Bytes} (torn : tornTail content ≠ []) {row other : Row}
    (made : other ∈ glued content row) : other.key ≠ row.key := by
  unfold glued at made
  split at made
  · contradiction
  · rename_i opened
    obtain rfl := Option.some.inj made
    have tornNul : 0 ∉ tornTail content := fun member => opened (.inl (.inr member))
    intro same
    have bytes := congrArg CStr.bytes same
    rw [CStr.bytes_ofBytes (by simp [tornNul, row.key.nulFree])] at bytes
    exact torn (List.append_left_eq_self.mp bytes)

/-- A torn tail without a tab holds no row. -/
theorem parseDbRow_tail_of_glued (miniz : Miniz) {content : Bytes} {row other : Row}
    (made : other ∈ glued content row) :
    parseDbRow miniz .none (chomp (tornTail content)) = none := by
  unfold glued at made
  split at made
  · contradiction
  · rename_i opened
    have tabless : tab ∉ (chomp (tornTail content)).bytes := by
      intro member
      exact opened (.inr (List.takeWhile_subset _ (List.takeWhile_subset _ member)))
    have uncut : cutAt tab (chomp (tornTail content)).bytes = none := by
      cases cut : cutAt tab (chomp (tornTail content)).bytes with
      | none => rfl
      | some parts => exact absurd ((cutAt_some cut).1 ▸ by simp) tabless
    rw [parseDbRow, splitRow, uncut]

/-- The rows of a file are the surviving ones and, at most, the row of its torn tail. -/
theorem rowsOf_eq_survivors (miniz : Miniz) {content : Bytes} (torn : tornTail content ≠ []) :
    rowsOf miniz content = survivors miniz content ∨
      rowsOf miniz content = survivors miniz content ++
        (parseDbRow miniz .none (chomp (tornTail content))).toList := by
  unfold survivors
  split
  · exact .inl rfl
  · exact .inr (rowsOf_torn miniz torn)

/-- An append survives exactly when the file is complete or the gluing changes no answer. -/
theorem appendSurvives_iff {miniz : Miniz} (lawful : miniz.Lawful) (content : Bytes) {row : Row}
    (clean : Clean row.key) (nonempty : row.value.bytes ≠ []) :
    AppendSurvives miniz content row ↔ Complete content ∨ GluingHidden miniz content row := by
  by_cases torn : tornTail content = []
  · have complete := (complete_iff_cutLines content).mpr torn
    exact ⟨fun _ => .inl complete, fun _ => appendSurvives_of_complete lawful complete clean⟩
  have incomplete : ¬Complete content := fun complete =>
    torn ((complete_iff_cutLines content).mp complete)
  have own : latest (survivors miniz content ++ (glued content row).toList) row.key =
      latest (survivors miniz content) row.key := by
    cases made : glued content row with
    | none => rw [Option.toList_none, List.append_nil]
    | some other => exact latest_append_other (glued_key torn made)
  rw [appendSurvives_iff_latest, or_iff_right incomplete]
  dsimp only
  rw [rowsOf_append_torn lawful torn clean nonempty, own]
  constructor
  · rintro ⟨kept, others⟩
    refine ⟨kept, ?_, ?_⟩
    · intro other made
      have same := others other.key (glued_key torn made)
      have tail := parseDbRow_tail_of_glued miniz made
      have whole := rowsOf_eq_survivors miniz torn
      rw [tail, Option.toList_none, List.append_nil, or_self] at whole
      rw [made, Option.toList_some, latest_append_self, whole] at same
      exact same.symm
    · intro old held different
      have same := others old.key different
      have nothing : glued content row = none := by
        cases made : glued content row with
        | none => rfl
        | some other =>
          rw [parseDbRow_tail_of_glued miniz made] at held
          contradiction
      rw [nothing, Option.toList_none, List.append_nil, rowsOf_torn miniz torn, held,
        Option.toList_some, latest_append_self] at same
      exact same
  · intro hidden
    refine ⟨hidden.kept, fun other different => ?_⟩
    have after : latest (survivors miniz content ++ (glued content row).toList) other =
        latest (survivors miniz content) other := by
      cases made : glued content row with
      | none => rw [Option.toList_none, List.append_nil]
      | some new => exact latest_append_repeated (hidden.made new made) other
    rw [after]
    rcases rowsOf_eq_survivors miniz torn with same | more
    · rw [same]
    · rw [more]
      cases held : parseDbRow miniz .none (chomp (tornTail content)) with
      | none => rw [Option.toList_none, List.append_nil]
      | some old =>
        rw [Option.toList_some]
        by_cases mine : old.key = row.key
        · exact (latest_append_other (mine ▸ Ne.symm different)).symm
        · exact (latest_append_repeated (hidden.lost old held mine) other).symm

/-- A row that lacks nothing but its line feed. -/
def tornRow : Bytes := ascii "a\tZ:eJwrAwAAdwB3\t0"

/-- The row appended in the examples. -/
def shortRow : Row := ⟨.ofBytes (ascii "k"), .ofBytes (ascii "v"), 0⟩

/-- Behind a file that ends in a line feed an append survives, and only there. -/
theorem appendSurvives_iff_whole :
    AppendSurvives sampleMiniz (tornRow ++ [lf]) shortRow ↔
      Complete (tornRow ++ [lf]) ∨ GluingHidden sampleMiniz (tornRow ++ [lf]) shortRow :=
  appendSurvives_iff sampleMiniz_lawful (tornRow ++ [lf]) (by decide) (by decide)

/-- Behind a torn row an append is lost, although its key is clean and its value not empty. -/
theorem torn_row_swallows_append :
    Clean shortRow.key ∧ shortRow.value.bytes ≠ [] ∧
      ¬AppendSurvives sampleMiniz tornRow shortRow := by
  refine ⟨by decide, by decide, fun survives => ?_⟩
  have found := ((appendSurvives_iff_latest sampleMiniz tornRow shortRow).mp survives).1
  have missing : latest (rowsOf sampleMiniz (tornRow ++ rowLine shortRow.key.bytes
      (valueField sampleMiniz shortRow.value) shortRow.expireAt)) shortRow.key = none := by
    decide +kernel
  rw [missing] at found
  contradiction

end StreamPipeline.Store
