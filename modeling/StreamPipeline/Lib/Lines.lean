import StreamPipeline.Lib.Bytes

/-!
# Lines and fields of text

`lines` are the strings successive `getline` calls return: every line keeps its line feed and
only the last one may lack it. `chomp` is the usual cut at the first CR or LF, and `cutAt` is
the split `strchr` makes at the first separator.
-/

namespace StreamPipeline

/-- The lines of a text, each with its line feed. -/
def lines : Bytes → List Bytes
  | [] => []
  | byte :: rest =>
    if byte = lf then [lf] :: lines rest
    else
      match lines rest with
      | [] => [[byte]]
      | line :: later => (byte :: line) :: later

/-- The text is empty or ends in a line feed. -/
def Complete (text : Bytes) : Prop := ∀ byte ∈ text.getLast?, byte = lf

instance (text : Bytes) : Decidable (Complete text) :=
  Option.decidableForallMem text.getLast?

/-- The empty text is complete. -/
theorem complete_nil : Complete [] := by simp [Complete]

/-- A text that ends in a line feed is complete. -/
theorem complete_snoc (text : Bytes) : Complete (text ++ [lf]) := by simp [Complete]

/-- A complete text after any text keeps it complete when the first one is. -/
theorem Complete.append {left right : Bytes} (first : Complete left) (second : Complete right) :
    Complete (left ++ right) := by
  intro last found
  rw [List.getLast?_append] at found
  cases ending : right.getLast? with
  | none => exact first last (by simpa [ending] using found)
  | some byte => exact second last (by simpa [ending] using found)

/-- The bytes before the first CR, LF or NUL, as `line[strcspn(line, "\r\n")] = '\0'` leaves
them. -/
def chomp (line : Bytes) : CStr := .ofBytes (line.takeWhile fun byte => byte ≠ cr ∧ byte ≠ lf)

/-- The text before and after the first separator. -/
def cutAt (separator : UInt8) : Bytes → Option (Bytes × Bytes)
  | [] => none
  | byte :: rest =>
    if byte = separator then some ([], rest)
    else (cutAt separator rest).map fun parts => (byte :: parts.1, parts.2)

/-- Lines put one after the other, each with a line feed. -/
def joinLines (text : List Bytes) : Bytes := text.flatMap fun line => line ++ [lf]

/-- The lines of a text that end in a line feed, without it, and what follows the last one. -/
def cutLines : Bytes → List Bytes × Bytes
  | [] => ([], [])
  | byte :: rest =>
    if byte = lf then ([] :: (cutLines rest).1, (cutLines rest).2)
    else
      match (cutLines rest).1 with
      | [] => ([], byte :: (cutLines rest).2)
      | line :: later => ((byte :: line) :: later, (cutLines rest).2)

/-! ## Lines -/

/-- A line up to its line feed is split off. -/
theorem lines_cons {line : Bytes} (inner : lf ∉ line) (rest : Bytes) :
    lines (line ++ lf :: rest) = (line ++ [lf]) :: lines rest := by
  induction line with
  | nil => simp [lines]
  | cons byte line ih =>
    rw [List.mem_cons, not_or] at inner
    obtain ⟨other, inner⟩ := inner
    simp [lines, Ne.symm other, ih inner]

/-- A nonempty text has a first line. -/
theorem lines_ne_nil {text : Bytes} (nonempty : text ≠ []) : lines text ≠ [] := by
  cases text with
  | nil => contradiction
  | cons byte rest =>
    unfold lines
    split
    · simp
    · split <;> simp

/-- The lines of a complete text are not changed by what follows it. -/
theorem lines_append {left : Bytes} (complete : Complete left) (right : Bytes) :
    lines (left ++ right) = lines left ++ lines right := by
  induction left with
  | nil => simp [lines]
  | cons byte left ih =>
    by_cases empty : left = []
    · subst empty
      obtain rfl : byte = lf := complete byte (by simp)
      simp [lines]
    · have rest : Complete left := by
        intro last found
        apply complete last
        rw [List.getLast?_cons, found]
        rfl
      have same := ih rest
      have first := lines_ne_nil empty
      by_cases feed : byte = lf
      · simp [lines, feed, same]
      · obtain ⟨line, later, found⟩ := List.exists_cons_of_ne_nil first
        simp only [List.cons_append, lines, feed, ↓reduceIte, same, found]

/-- A text without a line feed has no complete line. -/
theorem cutLines_of_not_mem {text : Bytes} (inner : lf ∉ text) : cutLines text = ([], text) := by
  induction text with
  | nil => rfl
  | cons byte text ih =>
    rw [List.mem_cons, not_or] at inner
    obtain ⟨other, inner⟩ := inner
    simp [cutLines, Ne.symm other, ih inner]

/-- A line up to its line feed is cut off. -/
theorem cutLines_cons {line : Bytes} (inner : lf ∉ line) (rest : Bytes) :
    cutLines (line ++ lf :: rest) = (line :: (cutLines rest).1, (cutLines rest).2) := by
  induction line with
  | nil => simp [cutLines]
  | cons byte line ih =>
    rw [List.mem_cons, not_or] at inner
    obtain ⟨other, inner⟩ := inner
    simp [cutLines, Ne.symm other, ih inner]

/-- Joined lines are cut again where they were joined. -/
theorem cutLines_joinLines {text : List Bytes} (each : ∀ line ∈ text, lf ∉ line) {tail : Bytes}
    (inner : lf ∉ tail) : cutLines (joinLines text ++ tail) = (text, tail) := by
  induction text with
  | nil => exact cutLines_of_not_mem inner
  | cons line text ih =>
    have rest := ih fun other member => each other (List.mem_cons_of_mem line member)
    have shape : joinLines (line :: text) ++ tail = line ++ lf :: (joinLines text ++ tail) := by
      simp [joinLines]
    rw [shape, cutLines_cons (each line List.mem_cons_self), rest]

/-- The lines and what follows the last one make up the text. -/
theorem joinLines_cutLines (text : Bytes) :
    joinLines (cutLines text).1 ++ (cutLines text).2 = text := by
  induction text with
  | nil => rfl
  | cons byte text ih =>
    unfold cutLines
    split
    · rename_i feed
      simp only [joinLines, List.flatMap_cons, List.nil_append, List.append_assoc] at ih ⊢
      rw [ih, feed]
      rfl
    · split <;> rename_i found <;> rw [found] at ih
      · simpa [joinLines] using ih
      · simpa [joinLines] using ih

/-- What follows the last line feed has none. -/
theorem not_mem_cutLines_snd (text : Bytes) : lf ∉ (cutLines text).2 := by
  induction text with
  | nil => simp [cutLines]
  | cons byte text ih =>
    unfold cutLines
    split
    · exact ih
    · split
      · simp only [List.mem_cons, not_or]
        exact ⟨fun same => by simp_all, ih⟩
      · exact ih

/-- Joined lines form a complete text. -/
theorem complete_joinLines (text : List Bytes) : Complete (joinLines text) := by
  induction text with
  | nil => exact complete_nil
  | cons line text ih => exact (complete_snoc line).append ih

/-- A text is complete when nothing follows its last line feed. -/
theorem complete_iff_cutLines (text : Bytes) : Complete text ↔ (cutLines text).2 = [] := by
  have whole := joinLines_cutLines text
  constructor
  · intro complete
    rcases List.eq_nil_or_concat (cutLines text).2 with empty | ⟨front, last, shape⟩
    · exact empty
    · have inner := not_mem_cutLines_snd text
      rw [shape, List.concat_eq_append] at whole inner
      have feed : last = lf := complete last (by rw [← whole]; simp)
      simp [feed] at inner
  · intro empty
    rw [empty, List.append_nil] at whole
    rw [← whole]
    exact complete_joinLines _

/-- A text without a line feed is one line. -/
theorem lines_of_not_mem {text : Bytes} (nonempty : text ≠ []) (inner : lf ∉ text) :
    lines text = [text] := by
  induction text with
  | nil => contradiction
  | cons byte text ih =>
    rw [List.mem_cons, not_or] at inner
    cases text with
    | nil => simp [lines, Ne.symm inner.1]
    | cons next text =>
      have later := ih (by simp) inner.2
      rw [lines, if_neg (Ne.symm inner.1), later]

/-- A line has its only line feed at the end, if it has one. -/
theorem line_of_mem {text line : Bytes} (member : line ∈ lines text) :
    ∃ body, lf ∉ body ∧ (line = body ++ [lf] ∨ line = body) := by
  induction text generalizing line with
  | nil => simp [lines] at member
  | cons byte text ih =>
    rw [lines] at member
    by_cases feed : byte = lf
    · rw [if_pos feed] at member
      rcases List.mem_cons.mp member with rfl | later
      · exact ⟨[], by simp, .inl rfl⟩
      · exact ih later
    · have longer (rest : Bytes) (first : rest ∈ lines text) :
          ∃ body, lf ∉ body ∧ (byte :: rest = body ++ [lf] ∨ byte :: rest = body) := by
        have ⟨body, inner, shape⟩ := ih first
        refine ⟨byte :: body, ?_, ?_⟩
        · simp [Ne.symm feed, inner]
        · rcases shape with rfl | rfl <;> simp
      rw [if_neg feed] at member
      split at member
      · rw [List.mem_singleton.mp member]
        exact ⟨[byte], by simp [Ne.symm feed], .inr rfl⟩
      · rename_i first later found
        rcases List.mem_cons.mp member with rfl | deeper
        · exact longer first (by simp [found])
        · exact ih (by simp [found, deeper])

/-- Lines put one after the other are found again. -/
theorem lines_joinLines {text : List Bytes} (each : ∀ line ∈ text, lf ∉ line) :
    lines (joinLines text) = text.map fun line => line ++ [lf] := by
  induction text with
  | nil => rfl
  | cons line text ih =>
    have later := ih fun other member => each other (List.mem_cons_of_mem line member)
    have shape : joinLines (line :: text) = line ++ lf :: joinLines text := by simp [joinLines]
    rw [shape, lines_cons (each line List.mem_cons_self), later, List.map_cons]

/-! ## Fields -/

/-- The first separator ends the first field. -/
theorem cutAt_append {separator : UInt8} {left : Bytes} (inner : separator ∉ left)
    (right : Bytes) : cutAt separator (left ++ separator :: right) = some (left, right) := by
  induction left with
  | nil => simp [cutAt]
  | cons byte left ih =>
    rw [List.mem_cons, not_or] at inner
    obtain ⟨other, inner⟩ := inner
    simp [cutAt, Ne.symm other, ih inner]

/-- A text that is not cut lacks the separator. -/
theorem not_mem_of_cutAt {separator : UInt8} {text : Bytes} (whole : cutAt separator text = none) :
    separator ∉ text := by
  intro member
  obtain ⟨left, right, rfl, inner⟩ := List.eq_append_cons_of_mem member
  rw [cutAt_append inner] at whole
  contradiction

/-- A cut text is its two parts around the separator, which the first part lacks. -/
theorem cutAt_some {separator : UInt8} {text left right : Bytes}
    (found : cutAt separator text = some (left, right)) :
    text = left ++ separator :: right ∧ separator ∉ left := by
  induction text generalizing left with
  | nil => simp [cutAt] at found
  | cons byte text ih =>
    by_cases same : byte = separator
    · simp only [cutAt, same, ↓reduceIte, Option.some.injEq, Prod.mk.injEq] at found
      obtain ⟨rfl, rfl⟩ := found
      simp [same]
    · cases inner : cutAt separator text with
      | none => simp [cutAt, same, inner] at found
      | some parts =>
        obtain ⟨head, tail⟩ := parts
        simp only [cutAt, same, ↓reduceIte, inner, Option.map_some, Option.some.injEq,
          Prod.mk.injEq] at found
        obtain ⟨rfl, rfl⟩ := found
        obtain ⟨split, free⟩ := ih inner
        exact ⟨by rw [split]; rfl, by simp [free, Ne.symm same]⟩

/-- The first line of a text is cut off first. -/
theorem cutLines_of_cutAt {text line rest : Bytes} (found : cutAt lf text = some (line, rest)) :
    cutLines text = (line :: (cutLines rest).1, (cutLines rest).2) := by
  obtain ⟨shape, inner⟩ := cutAt_some found
  rw [shape, cutLines_cons inner]

/-- A text without a line feed is left over. -/
theorem cutLines_of_cutAt_none {text : Bytes} (whole : cutAt lf text = none) :
    cutLines text = ([], text) := cutLines_of_not_mem (not_mem_of_cutAt whole)

/-- Cutting in two steps: what the first text leaves goes in front of the second. -/
theorem cutLines_append (left right : Bytes) :
    cutLines (left ++ right) = ((cutLines left).1 ++ (cutLines ((cutLines left).2 ++ right)).1,
      (cutLines ((cutLines left).2 ++ right)).2) := by
  induction size : left.length using Nat.strong_induction_on generalizing left with
  | h count ih =>
    cases found : cutAt lf left with
    | none => simp [cutLines_of_cutAt_none found]
    | some parts =>
      obtain ⟨line, rest⟩ := parts
      obtain ⟨shape, inner⟩ := cutAt_some found
      have shorter : rest.length < count := by
        rw [← size, shape, List.length_append, List.length_cons]
        omega
      have later := ih rest.length shorter rest rfl
      rw [shape, List.append_assoc, List.cons_append, cutLines_cons inner, cutLines_cons inner,
        later]
      rfl

/-! ## Cut lines -/

/-- A cut line contains neither CR nor LF. -/
theorem not_mem_chomp (line : Bytes) : cr ∉ (chomp line).bytes ∧ lf ∉ (chomp line).bytes := by
  have kept : ∀ byte ∈ (chomp line).bytes, byte ≠ cr ∧ byte ≠ lf := by
    intro byte member
    have outer := (List.takeWhile_subset _) member
    simpa using List.mem_takeWhile_imp outer
  exact ⟨fun member => (kept _ member).1 rfl, fun member => (kept _ member).2 rfl⟩

/-- Cutting a line feed off a string without CR and LF returns the string. -/
theorem chomp_snoc {text : CStr} (carriage : cr ∉ text.bytes) (feed : lf ∉ text.bytes) :
    chomp (text.bytes ++ [lf]) = text := by
  have kept : ∀ byte ∈ text.bytes, decide (byte ≠ cr ∧ byte ≠ lf) = true := by
    intro byte member
    simp only [decide_eq_true_eq]
    exact ⟨fun same => carriage (same ▸ member), fun same => feed (same ▸ member)⟩
  rw [chomp, List.takeWhile_append_of_pos kept]
  simp

/-- A cut inside a text is a cut inside every longer one. -/
theorem chomp_append_of_mem {text : Bytes} {byte : UInt8} (member : byte ∈ text)
    (ends : byte = cr ∨ byte = lf ∨ byte = 0) (rest : Bytes) :
    chomp (text ++ rest) = chomp text := by
  apply CStr.ext
  have joined : ∀ bytes : Bytes, (chomp bytes).bytes =
      bytes.takeWhile fun byte => byte ≠ 0 ∧ byte ≠ cr ∧ byte ≠ lf := by
    intro bytes
    simp [chomp, CStr.ofBytes, List.takeWhile_takeWhile]
  rw [joined, joined, List.takeWhile_append]
  split
  · rename_i whole
    have same := List.IsPrefix.eq_of_length (List.takeWhile_prefix _) whole
    rw [← same] at member
    have kept := List.mem_takeWhile_imp member
    rcases ends with rfl | rfl | rfl <;> simp at kept
  · rfl

end StreamPipeline
