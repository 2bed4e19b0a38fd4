import StreamPipeline.Lib.Bytes

/-!
# Tokens of a string

`strtok_r` walks a string in place: it passes over separators, hands out the offset of the next
token and stores a terminator over the separator behind it. The tokens are the nonempty pieces
between separators, so their number alone says whether a piece was empty.
-/

namespace StreamPipeline.Tokens

/-! ## Pieces and tokens of a text -/

section

variable {α : Type} {isDelim : α → Bool}

/-- The nonempty pieces between separators. -/
def tokens [DecidableEq α] (isDelim : α → Bool) (text : List α) : List (List α) :=
  (text.splitOnP isDelim).filter (· ≠ [])

/-- There is one piece more than there are separators. -/
theorem length_splitOnP (text : List α) :
    (text.splitOnP isDelim).length = text.countP isDelim + 1 := by
  induction text with
  | nil => rfl
  | cons first rest ih =>
    rw [List.splitOnP_cons_eq_if_modifyHead]
    by_cases delim : isDelim first
    · rw [if_pos delim, List.countP_cons_of_pos delim, List.length_cons, ih]
    · rw [if_neg delim, List.countP_cons_of_neg delim, List.length_modifyHead, ih]

/-- How a text begins: with its last token, with a token and a separator, or with nothing but
separators to its end. -/
inductive Start (isDelim : α → Bool) : List α → Prop where
  /-- There is no token. -/
  | blank {skipped : List α} (all : ∀ byte ∈ skipped, isDelim byte = true) :
      Start isDelim skipped
  /-- The token reaches the end. -/
  | last {skipped token : List α} (all : ∀ byte ∈ skipped, isDelim byte = true)
      (filled : token ≠ []) (inner : ∀ byte ∈ token, isDelim byte = false) :
      Start isDelim (skipped ++ token)
  /-- A separator ends the token. -/
  | next {skipped token : List α} {delim : α} (rest : List α)
      (all : ∀ byte ∈ skipped, isDelim byte = true) (filled : token ≠ [])
      (inner : ∀ byte ∈ token, isDelim byte = false) (separates : isDelim delim = true) :
      Start isDelim (skipped ++ (token ++ delim :: rest))

/-- Every text begins in one of these ways. -/
theorem start_text (text : List α) : Start isDelim text := by
  induction text with
  | nil => exact .blank (by simp)
  | cons first rest ih =>
    by_cases delim : isDelim first = true
    · have more {skipped : List α} (all : ∀ byte ∈ skipped, isDelim byte = true) :
          ∀ byte ∈ first :: skipped, isDelim byte = true := by
        intro byte member
        rcases List.mem_cons.mp member with rfl | later
        · exact delim
        · exact all byte later
      cases ih with
      | blank all => exact .blank (more all)
      | last all filled inner => exact .last (more all) filled inner
      | next rest all filled inner separates => exact .next rest (more all) filled inner separates
    · have plain : isDelim first = false := by simpa using delim
      have filled : (first :: rest).takeWhile (!isDelim ·) ≠ [] := by simp [plain]
      have inner : ∀ byte ∈ (first :: rest).takeWhile (!isDelim ·), isDelim byte = false := by
        intro byte member
        simpa using List.mem_takeWhile_imp member
      have none : ∀ byte ∈ ([] : List α), isDelim byte = true := by simp
      have split := List.takeWhile_append_dropWhile (p := (!isDelim ·)) (l := first :: rest)
      rw [← split]
      cases found : (first :: rest).dropWhile (!isDelim ·) with
      | nil =>
        rw [List.append_nil]
        exact .last none filled inner
      | cons byte behind =>
        have stops := List.head_dropWhile_not (!isDelim ·) (l := first :: rest) (by simp [found])
        have separates : isDelim byte = true := by simpa [found] using stops
        exact .next behind none filled inner separates

variable [DecidableEq α]

/-- There are never more tokens than pieces. -/
theorem length_tokens_le (text : List α) :
    (tokens isDelim text).length ≤ text.countP isDelim + 1 := by
  have pieces := @length_splitOnP _ isDelim text
  have fewer := List.length_filter_le (fun piece => decide (piece ≠ [])) (text.splitOnP isDelim)
  rw [tokens]
  omega

/-- There are as many tokens as pieces exactly when no piece is empty. -/
theorem length_tokens_eq_iff (text : List α) :
    (tokens isDelim text).length = text.countP isDelim + 1 ↔
      ∀ piece ∈ text.splitOnP isDelim, piece ≠ [] := by
  rw [← length_splitOnP, tokens, List.length_filter_eq_length_iff]
  simp

/-- When no piece is empty the tokens are the pieces. -/
theorem tokens_of_nonempty {text : List α} (filled : ∀ piece ∈ text.splitOnP isDelim, piece ≠ []) :
    tokens isDelim text = text.splitOnP isDelim := by
  apply List.filter_eq_self.mpr
  intro piece member
  simpa using filled piece member

/-- A separator at the front adds no token. -/
theorem tokens_delim {delim : α} (separates : isDelim delim = true) (rest : List α) :
    tokens isDelim (delim :: rest) = tokens isDelim rest := by
  rw [tokens, List.splitOnP_cons_eq_if_modifyHead, if_pos separates]
  simp [tokens]

/-- Separators at the front add no token. -/
theorem tokens_skip {skipped : List α} (blank : ∀ byte ∈ skipped, isDelim byte = true)
    (rest : List α) : tokens isDelim (skipped ++ rest) = tokens isDelim rest := by
  induction skipped with
  | nil => rfl
  | cons delim skipped ih =>
    rw [List.cons_append, tokens_delim (blank delim List.mem_cons_self)]
    exact ih fun byte member => blank byte (List.mem_cons_of_mem delim member)

/-- A text without separators is one token. -/
theorem tokens_last {token : List α} (filled : token ≠ [])
    (inner : ∀ byte ∈ token, isDelim byte = false) : tokens isDelim token = [token] := by
  rw [tokens, List.splitOnP_eq_singleton inner]
  simp [filled]

/-- The text up to the first separator is the first token. -/
theorem tokens_next {token : List α} {delim : α} (filled : token ≠ [])
    (inner : ∀ byte ∈ token, isDelim byte = false) (separates : isDelim delim = true)
    (rest : List α) :
    tokens isDelim (token ++ delim :: rest) = token :: tokens isDelim rest := by
  rw [tokens, List.splitOnP_append_cons_of_forall_mem inner delim separates]
  simp [filled, tokens]

end

/-! ## Strings in a block of memory -/

/-- The string at an offset of a block: the bytes up to the first NUL. -/
def stringAt (memory : Bytes) (offset : Nat) : Bytes := (memory.drop offset).takeWhile (· ≠ 0)

/-- A text behind some bytes and before a NUL is the string at its offset. -/
theorem stringAt_append {text : Bytes} (clean : 0 ∉ text) (front back : Bytes) :
    stringAt (front ++ (text ++ 0 :: back)) front.length = text := by
  have kept : ∀ byte ∈ text, decide (byte ≠ 0) = true := by
    intro byte member
    simp only [decide_eq_true_eq]
    rintro rfl
    exact clean member
  rw [stringAt, List.drop_left, List.takeWhile_append_of_pos kept]
  simp

/-- Behind the first part of a text its second part is a string of its own. -/
theorem stringAt_behind {first second : Bytes} (clean : 0 ∉ first ++ second)
    (front back : Bytes) :
    stringAt (front ++ (first ++ second ++ 0 :: back)) (front.length + first.length) = second := by
  have later : 0 ∉ second := fun member => clean (List.mem_append_right first member)
  have apart := stringAt_append later (front ++ first) back
  rw [List.length_append] at apart
  simpa using apart

/-! ## `strtok_r` -/

/-- `strspn` at an offset. -/
def strspn (isDelim : UInt8 → Bool) (memory : Bytes) (offset : Nat) : Nat :=
  ((stringAt memory offset).takeWhile isDelim).length

/-- `strcspn` at an offset. -/
def strcspn (isDelim : UInt8 → Bool) (memory : Bytes) (offset : Nat) : Nat :=
  ((stringAt memory offset).takeWhile (!isDelim ·)).length

/-- What a call of `strtok_r` leaves behind. -/
structure Answer where
  /-- The offset handed out; absent for `NULL`. -/
  token : Option Nat
  /-- The block after the call. -/
  memory : Bytes
  /-- The offset the next call goes on from. -/
  save : Nat

/-- `strtok_r` from an offset: that of the string at the first call, the saved one later. -/
def strtokR (isDelim : UInt8 → Bool) (memory : Bytes) (offset : Nat) : Answer :=
  let first := offset + strspn isDelim memory offset
  let stop := first + strcspn isDelim memory first
  if stringAt memory first = [] then ⟨none, memory, first⟩
  else if stringAt memory stop = [] then ⟨some first, memory, stop⟩
  else ⟨some first, memory.set stop 0, stop + 1⟩

variable {isDelim : UInt8 → Bool}

/-- Separators are passed over up to a byte that is none. -/
theorem strspn_skip {skipped rest : Bytes} (clean : 0 ∉ skipped ++ rest)
    (all : ∀ byte ∈ skipped, isDelim byte = true) (stops : rest.takeWhile isDelim = [])
    (front back : Bytes) :
    strspn isDelim (front ++ (skipped ++ rest ++ 0 :: back)) front.length = skipped.length := by
  rw [strspn, stringAt_append clean, List.takeWhile_append_of_pos all, stops, List.append_nil]

/-- A token is passed over up to its end. -/
theorem strcspn_token {skipped token rest : Bytes} (clean : 0 ∉ skipped ++ (token ++ rest))
    (inner : ∀ byte ∈ token, isDelim byte = false) (stops : rest.takeWhile (!isDelim ·) = [])
    (front back : Bytes) :
    strcspn isDelim (front ++ (skipped ++ (token ++ rest) ++ 0 :: back))
      (front.length + skipped.length) = token.length := by
  have plain : ∀ byte ∈ token, (!isDelim byte) = true := by
    intro byte member
    rw [inner byte member]
    rfl
  rw [strcspn, stringAt_behind clean, List.takeWhile_append_of_pos plain, stops, List.append_nil]

/-- No token starts with a separator. -/
theorem takeWhile_token {token : Bytes} (filled : token ≠ [])
    (inner : ∀ byte ∈ token, isDelim byte = false) (rest : Bytes) :
    (token ++ rest).takeWhile isDelim = [] := by
  cases token with
  | nil => contradiction
  | cons first token => simp [inner first List.mem_cons_self]

/-- Nothing but separators: no token, and the walk ends at the terminator. -/
theorem strtokR_blank {skipped : Bytes} (clean : 0 ∉ skipped)
    (all : ∀ byte ∈ skipped, isDelim byte = true) (front back : Bytes) :
    strtokR isDelim (front ++ (skipped ++ 0 :: back)) front.length =
      ⟨none, front ++ (skipped ++ 0 :: back), front.length + skipped.length⟩ := by
  have whole : 0 ∉ skipped ++ [] := by simpa using clean
  have passed := strspn_skip whole all List.takeWhile_nil front back
  have ended := stringAt_behind whole front back
  rw [List.append_nil] at passed ended
  rw [strtokR, passed, if_pos ended]

/-- The last token is handed out as it stands. -/
theorem strtokR_last {skipped token : Bytes} (clean : 0 ∉ skipped ++ token)
    (all : ∀ byte ∈ skipped, isDelim byte = true) (filled : token ≠ [])
    (inner : ∀ byte ∈ token, isDelim byte = false) (front back : Bytes) :
    strtokR isDelim (front ++ (skipped ++ token ++ 0 :: back)) front.length =
      ⟨some (front.length + skipped.length), front ++ (skipped ++ token ++ 0 :: back),
        front.length + skipped.length + token.length⟩ := by
  have stops := takeWhile_token filled inner []
  have whole : 0 ∉ skipped ++ (token ++ []) := by simpa using clean
  have crossed := strcspn_token whole inner List.takeWhile_nil front back
  have closing : 0 ∉ skipped ++ token ++ [] := by simpa using clean
  have ended := stringAt_behind closing front back
  rw [List.append_nil] at stops crossed ended
  rw [List.length_append, ← Nat.add_assoc] at ended
  have passed := strspn_skip clean all stops front back
  have started := stringAt_behind clean front back
  rw [strtokR, passed, crossed, started, if_neg filled, if_pos ended]

/-- The separator behind any other token becomes its terminator. -/
theorem strtokR_next {skipped token rest : Bytes} {delim : UInt8}
    (clean : 0 ∉ skipped ++ (token ++ delim :: rest))
    (all : ∀ byte ∈ skipped, isDelim byte = true) (filled : token ≠ [])
    (inner : ∀ byte ∈ token, isDelim byte = false) (separates : isDelim delim = true)
    (front back : Bytes) :
    strtokR isDelim (front ++ (skipped ++ (token ++ delim :: rest) ++ 0 :: back)) front.length =
      ⟨some (front.length + skipped.length),
        front ++ skipped ++ token ++ [0] ++ (rest ++ 0 :: back),
        (front ++ skipped ++ token ++ [0]).length⟩ := by
  have stops := takeWhile_token filled inner (delim :: rest)
  have ends : (delim :: rest).takeWhile (!isDelim ·) = [] := by simp [separates]
  have passed := strspn_skip clean all stops front back
  have crossed := strcspn_token clean inner ends front back
  have started := stringAt_behind clean front back
  have longer : token ++ delim :: rest ≠ [] := by simp
  have split : skipped ++ (token ++ delim :: rest) = skipped ++ token ++ delim :: rest := by simp
  have further := clean
  rw [split] at further
  have stopped := stringAt_behind further front back
  rw [List.length_append, ← Nat.add_assoc, ← split] at stopped
  have stored : (front ++ (skipped ++ (token ++ delim :: rest) ++ 0 :: back)).set
      (front.length + skipped.length + token.length) 0 =
        front ++ skipped ++ token ++ [0] ++ (rest ++ 0 :: back) := by
    have before : front ++ (skipped ++ (token ++ delim :: rest) ++ 0 :: back) =
        (front ++ skipped ++ token) ++ delim :: (rest ++ 0 :: back) := by simp
    have place : front.length + skipped.length + token.length =
        (front ++ skipped ++ token).length := by simp [Nat.add_assoc]
    rw [before, place, List.set_append_right _ _ (Nat.le_refl _), Nat.sub_self]
    simp
  rw [strtokR, passed, crossed, started, if_neg longer, stopped, if_neg (by simp), stored]
  simp [Nat.add_assoc]

/-! ## The walk to the end -/

/-- The offsets handed out from an answer on, until `strtok_r` returns `NULL`, and the block
then. Each is the offset of a nonempty string when it is handed out. -/
inductive Yields (isDelim : UInt8 → Bool) : Answer → List Nat → Bytes → Prop where
  /-- The answer is `NULL`. -/
  | done (memory : Bytes) (save : Nat) : Yields isDelim ⟨none, memory, save⟩ [] memory
  /-- The answer is a token, and the walk goes on from the saved offset. -/
  | token {memory after : Bytes} {save offset : Nat} {later : List Nat}
      (filled : stringAt memory offset ≠ [])
      (rest : Yields isDelim (strtokR isDelim memory save) later after) :
      Yields isDelim ⟨some offset, memory, save⟩ (offset :: later) after

/-- The walk through a text hands out its tokens in order, each a string of the block at the
end, and leaves everything before the text as it was. -/
theorem yields_tokens (back : Bytes) {text : Bytes} (clean : 0 ∉ text) (front : Bytes) :
    ∃ (offsets : List Nat) (tail : Bytes),
      Yields isDelim (strtokR isDelim (front ++ (text ++ 0 :: back)) front.length) offsets
        (front ++ tail) ∧
      offsets.map (stringAt (front ++ tail)) = tokens isDelim text := by
  induction measured : text.length using Nat.strong_induction_on generalizing text front with
  | _ size ih =>
    cases @start_text _ isDelim text with
    | blank all =>
      have none : tokens isDelim text = [] := by simpa [tokens] using tokens_skip all []
      refine ⟨[], text ++ 0 :: back, ?_, ?_⟩
      · rw [strtokR_blank clean all]
        exact .done _ _
      · rw [none, List.map_nil]
    | @last skipped token all filled inner =>
      have found := stringAt_behind clean front back
      refine ⟨[front.length + skipped.length], skipped ++ token ++ 0 :: back, ?_, ?_⟩
      · rw [strtokR_last clean all filled inner]
        apply Yields.token (by rwa [found])
        -- The walk stands at the terminator, where no token is left.
        have blank := @strtokR_blank isDelim [] (by simp) (by simp)
          (front ++ (skipped ++ token)) back
        rw [List.length_append, List.length_append, ← Nat.add_assoc] at blank
        simp only [List.nil_append, List.append_assoc] at blank ⊢
        rw [blank]
        exact .done _ _
      · rw [tokens_skip all, tokens_last filled inner, List.map_singleton, found]
    | @next skipped token delim rest all filled inner separates =>
      have later : 0 ∉ rest := fun member => clean (by simp [member])
      have shorter : rest.length < size := by
        rw [← measured]
        simp only [List.length_append, List.length_cons]
        omega
      have ⟨offsets, tail, yields, strings⟩ :=
        ih rest.length shorter later (front ++ skipped ++ token ++ [0]) rfl
      have own : 0 ∉ skipped ++ token := by
        intro member
        apply clean
        rw [← List.append_assoc]
        exact List.mem_append_left _ member
      have found := stringAt_behind own front tail
      have same : front ++ skipped ++ token ++ [0] ++ tail =
          front ++ (skipped ++ token ++ 0 :: tail) := by simp
      rw [same] at yields strings
      refine ⟨(front.length + skipped.length) :: offsets, skipped ++ token ++ 0 :: tail, ?_, ?_⟩
      · rw [strtokR_next clean all filled inner separates]
        apply Yields.token _ yields
        have reached := stringAt_behind own front (rest ++ 0 :: back)
        have block : front ++ skipped ++ token ++ [0] ++ (rest ++ 0 :: back) =
            front ++ (skipped ++ token ++ 0 :: (rest ++ 0 :: back)) := by simp
        rw [block, reached]
        exact filled
      · rw [tokens_skip all, tokens_next filled inner separates, List.map_cons, found, strings]

end StreamPipeline.Tokens
