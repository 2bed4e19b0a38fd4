import Mathlib

/-!
# Blocks of memory

Programs that allocate blocks, read and write them and free them. A use of a block that is not
allocated has no result, and neither has a `free` of anything but the start of a block. A program
meets a contract when it has a result from every heap that holds the blocks it owns, and leaves
every other block as it is. Anything that is opened and closed again can be a block.
-/

namespace StreamPipeline.Blocks

variable {α β γ : Type}

/-- The allocated blocks. -/
structure Heap (β : Type) where
  /-- The blocks with their contents. -/
  cells : List (Nat × β)
  /-- The number of the next block. -/
  next : Nat
  /-- How many blocks were asked for. -/
  calls : Nat
  /-- A block is allocated once. -/
  distinct : (cells.map Prod.fst).Nodup
  /-- The next block is a new one. -/
  fresh : ∀ cell ∈ cells, cell.1 < next

/-- A place in a block. -/
structure Ptr where
  /-- The block. -/
  block : Nat
  /-- The distance from its start. -/
  offset : Nat
  deriving DecidableEq

namespace Heap

/-- Nothing is allocated. -/
def empty : Heap β := ⟨[], 0, 0, List.nodup_nil, by simp⟩

/-- What a block contains; none when it is not allocated. -/
def content (heap : Heap β) (block : Nat) : Option β :=
  (heap.cells.find? fun cell => cell.1 = block).map Prod.snd

/-- A new block. -/
def push (heap : Heap β) (content : β) : Heap β where
  cells := (heap.next, content) :: heap.cells
  next := heap.next + 1
  calls := heap.calls + 1
  distinct := by
    have unused : heap.next ∉ heap.cells.map Prod.fst := by
      intro member
      obtain ⟨cell, inside, same⟩ := List.mem_map.mp member
      have before := heap.fresh cell inside
      omega
    exact List.nodup_cons.mpr ⟨unused, heap.distinct⟩
  fresh cell member := by
    rcases List.mem_cons.mp member with rfl | inside
    · exact Nat.lt_succ_self _
    · exact Nat.lt_succ_of_lt (heap.fresh cell inside)

/-- An allocation that fails. -/
def refuse (heap : Heap β) : Heap β := { heap with calls := heap.calls + 1 }

/-- The heap without a block. -/
def erase (heap : Heap β) (block : Nat) : Heap β where
  cells := heap.cells.filter fun cell => cell.1 ≠ block
  next := heap.next
  calls := heap.calls
  distinct := heap.distinct.sublist (List.filter_sublist.map Prod.fst)
  fresh cell member := heap.fresh cell (List.mem_of_mem_filter member)

/-- A block with another content. -/
def write (heap : Heap β) (block : Nat) (content : β) : Heap β where
  cells := heap.cells.map fun cell => if cell.1 = block then (block, content) else cell
  next := heap.next
  calls := heap.calls
  distinct := by
    have same : (Prod.fst ∘ fun cell : Nat × β => if cell.1 = block then (block, content) else cell)
        = Prod.fst := by
      funext cell
      by_cases here : cell.1 = block <;> simp [here]
    rw [List.map_map, same]
    exact heap.distinct
  fresh cell member := by
    obtain ⟨old, inside, same⟩ := List.mem_map.mp member
    have before := heap.fresh old inside
    by_cases here : old.1 = block
    · rw [if_pos here] at same
      rw [← same, ← here]
      exact before
    · rw [if_neg here] at same
      exact same ▸ before

/-- The heap is made of these blocks. -/
def Holds (heap : Heap β) (cells : Multiset (Nat × β)) : Prop := ↑heap.cells = cells

variable {heap : Heap β} {block : Nat} {content : β} {rest : Multiset (Nat × β)}

/-- A held block has its content. -/
theorem Holds.content_eq {cells : Multiset (Nat × β)} (holds : heap.Holds cells)
    (member : (block, content) ∈ cells) : heap.content block = some content := by
  rw [← holds, Multiset.mem_coe] at member
  rw [Heap.content]
  have distinct := heap.distinct
  generalize heap.cells = list at member distinct
  induction list with
  | nil => contradiction
  | cons first list ih =>
    rw [List.map_cons, List.nodup_cons] at distinct
    by_cases here : first.1 = block
    · rcases List.mem_cons.mp member with same | later
      · rw [List.find?_cons_of_pos (by simpa using here), ← same]
        rfl
      · have again : block ∈ list.map Prod.fst := List.mem_map_of_mem later
        exact absurd (here ▸ again) distinct.1
    · have later : (block, content) ∈ list := by
        rcases List.mem_cons.mp member with same | later
        · exact absurd (congrArg Prod.fst same).symm here
        · exact later
      rw [List.find?_cons_of_neg (by simpa using here)]
      exact ih later distinct.2

/-- No other block of a heap has the number of a held one. -/
theorem Holds.other (holds : heap.Holds ({(block, content)} + rest)) :
    ∀ cell ∈ rest, cell.1 ≠ block := by
  have distinct : (({(block, content)} + rest).map Prod.fst).Nodup := by
    rw [← holds]
    exact heap.distinct
  rw [Multiset.map_add, Multiset.map_singleton, Multiset.singleton_add, Multiset.nodup_cons]
    at distinct
  intro cell member same
  have again : cell.1 ∈ rest.map Prod.fst := Multiset.mem_map_of_mem Prod.fst member
  rw [same] at again
  exact distinct.1 again

/-- Erasing a held block leaves the others. -/
theorem Holds.erase (holds : heap.Holds ({(block, content)} + rest)) :
    (heap.erase block).Holds rest := by
  have kept : rest.filter (fun cell => cell.1 ≠ block) = rest :=
    Multiset.filter_eq_self.mpr holds.other
  have split : ((heap.cells.filter fun cell => cell.1 ≠ block : List _) : Multiset _) =
      Multiset.filter (fun cell => cell.1 ≠ block) ({(block, content)} + rest) := by
    rw [← holds, Multiset.filter_coe]
  have gone : Multiset.filter (fun cell : Nat × β => cell.1 ≠ block) {(block, content)} = 0 := by
    simp
  rw [Multiset.filter_add, gone, zero_add, kept] at split
  exact split

/-- Writing a held block changes it alone. -/
theorem Holds.write (holds : heap.Holds ({(block, content)} + rest)) (other : β) :
    (heap.write block other).Holds ({(block, other)} + rest) := by
  have kept : rest.map (fun cell => if cell.1 = block then (block, other) else cell) = rest := by
    calc rest.map (fun cell => if cell.1 = block then (block, other) else cell)
        = rest.map id := Multiset.map_congr rfl fun cell member => if_neg (holds.other cell member)
      _ = rest := Multiset.map_id rest
  have split : ((heap.cells.map fun cell => if cell.1 = block then (block, other) else cell :
      List _) : Multiset _) = Multiset.map
        (fun cell => if cell.1 = block then (block, other) else cell)
        ({(block, content)} + rest) := by
    rw [← holds, Multiset.map_coe]
  rw [Multiset.map_add, kept, Multiset.map_singleton, if_pos rfl] at split
  exact split

/-- A new block joins the others. -/
theorem Holds.push (holds : heap.Holds rest) (content : β) :
    (heap.push content).Holds ({(heap.next, content)} + rest) := by
  rw [Holds, Heap.push, ← Multiset.cons_coe, holds, Multiset.singleton_add]

end Heap

/-! ## Programs -/

/-- A program on a heap; no result where the language has none. -/
abbrev Prog (β α : Type) := StateT (Heap β) Option α

/-- No result. -/
def undefined : Prog β α := fun _ => none

/-- `malloc` and what it is followed by to fill the block; `NULL` when it fails. The calls that
fail are named by their number. -/
def alloc (fails : Nat → Bool) (content : β) : Prog β (Option Ptr) := fun heap =>
  if fails heap.calls then some (none, heap.refuse)
  else some (some ⟨heap.next, 0⟩, heap.push content)

/-- `free`. -/
def free : Option Ptr → Prog β Unit
  | none => pure ()
  | some ptr => fun heap =>
    if ptr.offset = 0 ∧ (heap.content ptr.block).isSome then some ((), heap.erase ptr.block)
    else none

/-- The content of a block. -/
def load (block : Nat) : Prog β β := fun heap =>
  (heap.content block).map fun content => (content, heap)

/-- Another content for a block. -/
def store (block : Nat) (content : β) : Prog β Unit := fun heap =>
  if (heap.content block).isSome then some ((), heap.write block content) else none

/-- `realloc`; the new block is always another one. -/
def realloc (fails : Nat → Bool) (ptr : Option Ptr) (content : β) : Prog β (Option Ptr) := do
  match ← alloc fails content with
  | none => pure none
  | some fresh => do
    free ptr
    pure (some fresh)

/-! ## Contracts -/

/-- From a heap with the blocks `own` the program has a result, which keeps the promise with the
blocks it leaves in their place; every other block stays. -/
def Meets (prog : Prog β α) (own : Multiset (Nat × β))
    (promise : α → Multiset (Nat × β) → Prop) : Prop :=
  ∀ (heap : Heap β) (rest : Multiset (Nat × β)), heap.Holds (own + rest) →
    ∃ result left after, prog heap = some (result, after) ∧ after.Holds (left + rest) ∧
      promise result left

variable {prog : Prog β α} {next : α → Prog β γ} {own rest : Multiset (Nat × β)}
  {mid promise : α → Multiset (Nat × β) → Prop} {last : γ → Multiset (Nat × β) → Prop}

/-- A program goes on from what the one before it leaves. -/
theorem run_bind {heap mid : Heap β} {result : α} (ran : prog heap = some (result, mid)) :
    (prog >>= next) heap = next result mid := by
  show (prog heap).bind _ = _
  rw [ran]
  rfl

/-- A result by itself. -/
theorem Meets.pure {result : α} (kept : promise result own) :
    Meets (Pure.pure result) own promise :=
  fun heap _ holds => ⟨result, own, heap, rfl, holds, kept⟩

/-- A weaker promise. -/
theorem Meets.weaken (meets : Meets prog own mid)
    (implied : ∀ result left, mid result left → promise result left) :
    Meets prog own promise := by
  intro heap rest holds
  obtain ⟨result, left, after, ran, ends, kept⟩ := meets heap rest holds
  exact ⟨result, left, after, ran, ends, implied result left kept⟩

/-- A call owns some of the blocks; what follows owns those it leaves and the rest. -/
theorem Meets.bind {whole : Multiset (Nat × β)} (meets : Meets prog own mid)
    (split : whole = own + rest)
    (follows : ∀ result left, mid result left → Meets (next result) (left + rest) last) :
    Meets (prog >>= next) whole last := by
  intro heap others holds
  rw [split, add_assoc] at holds
  obtain ⟨result, left, after, ran, ends, kept⟩ := meets heap (rest + others) holds
  rw [← add_assoc] at ends
  obtain ⟨answer, final, done, finished, closes, promised⟩ :=
    follows result left kept after others ends
  refine ⟨answer, final, done, ?_, closes, promised⟩
  show (prog heap).bind _ = _
  rw [ran]
  exact finished

/-- A call that owns all blocks. -/
theorem Meets.andThen (meets : Meets prog own mid)
    (follows : ∀ result left, mid result left → Meets (next result) left last) :
    Meets (prog >>= next) own last := by
  apply meets.bind (add_zero own).symm
  intro result left kept
  rw [add_zero]
  exact follows result left kept

/-- A program that owns some of the blocks leaves the rest. -/
theorem Meets.within {whole : Multiset (Nat × β)} (meets : Meets prog own mid)
    (split : whole = own + rest)
    (implied : ∀ result left, mid result left → promise result (left + rest)) :
    Meets prog whole promise := by
  intro heap others holds
  rw [split, add_assoc] at holds
  obtain ⟨result, left, after, ran, ends, kept⟩ := meets heap (rest + others) holds
  rw [← add_assoc] at ends
  exact ⟨result, left + rest, after, ran, ends, implied result left kept⟩

/-- The program reads a result from the owned blocks and leaves them as they are. -/
def Returns (prog : Prog β α) (own : Multiset (Nat × β)) (result : α) : Prop :=
  Meets prog own fun answer left => answer = result ∧ left = own

/-- The program turns the owned blocks into others. -/
def Leaves (prog : Prog β Unit) (own after : Multiset (Nat × β)) : Prop :=
  Meets prog own fun _ left => left = after

/-- What is read stays the same among more blocks. -/
theorem Returns.mono {result : α} (returns : Returns prog own result)
    {whole : Multiset (Nat × β)} (part : own ≤ whole) : Returns prog whole result := by
  obtain ⟨rest, rfl⟩ := Multiset.le_iff_exists_add.mp part
  apply returns.within rfl
  rintro answer left ⟨same, rfl⟩
  exact ⟨same, rfl⟩

/-- A read and what follows it. -/
theorem Returns.bind {result : α} (returns : Returns prog own result)
    (follows : Meets (next result) own last) : Meets (prog >>= next) own last := by
  apply returns.andThen
  rintro answer left ⟨rfl, rfl⟩
  exact follows

/-- A change of some owned blocks and what follows it. -/
theorem Leaves.bind {prog : Prog β Unit} {next : Unit → Prog β γ}
    {after whole : Multiset (Nat × β)} (leaves : Leaves prog own after)
    (split : whole = own + rest) (follows : Meets (next ()) (after + rest) last) :
    Meets (prog >>= next) whole last := by
  apply Meets.bind leaves split
  rintro ⟨⟩ left rfl
  exact follows

/-- From one heap it leaves another with the blocks changed. -/
theorem Leaves.run {prog : Prog β Unit} {after : Multiset (Nat × β)} (leaves : Leaves prog own after)
    {heap : Heap β} (holds : heap.Holds (own + rest)) :
    ∃ changed, prog heap = some ((), changed) ∧ changed.Holds (after + rest) := by
  obtain ⟨⟨⟩, left, changed, ran, ends, rfl⟩ := leaves heap rest holds
  exact ⟨changed, ran, ends⟩

/-- A new block, or none because a call fails. -/
theorem meets_alloc (fails : Nat → Bool) (content : β) :
    Meets (alloc fails content) 0 fun result left =>
      (result = none ∧ left = 0 ∧ ∃ call, fails call = true) ∨
        ∃ block, result = some ⟨block, 0⟩ ∧ left = {(block, content)} := by
  intro heap rest holds
  rw [zero_add] at holds
  unfold alloc
  cases failed : fails heap.calls with
  | true =>
    exact ⟨none, 0, heap.refuse, rfl, by rwa [zero_add], .inl ⟨rfl, rfl, heap.calls, failed⟩⟩
  | false =>
    exact ⟨some ⟨heap.next, 0⟩, {(heap.next, content)}, heap.push content, rfl,
      holds.push content, .inr ⟨heap.next, rfl, rfl⟩⟩

/-- The content of an owned block. -/
theorem returns_load {block : Nat} {content : β} (member : (block, content) ∈ own) :
    Returns (load block) own content := by
  intro heap rest holds
  have found := holds.content_eq (Multiset.mem_add.mpr (.inl member))
  refine ⟨content, own, heap, ?_, holds, rfl, rfl⟩
  rw [load, found]
  rfl

/-- An owned block is written. -/
theorem leaves_store (block : Nat) (old content : β) :
    Leaves (store block content) {(block, old)} {(block, content)} := by
  intro heap rest holds
  have member : (block, old) ∈ {(block, old)} + rest := by simp
  have found := holds.content_eq member
  refine ⟨(), {(block, content)}, heap.write block content, ?_, holds.write content, rfl⟩
  rw [store, found]
  rfl

/-- `free(NULL)` does nothing. -/
theorem leaves_free_null : Leaves (free none : Prog β Unit) 0 0 := .pure rfl

/-- An owned block is freed. -/
theorem leaves_free (block : Nat) (content : β) :
    Leaves (free (some ⟨block, 0⟩)) {(block, content)} 0 := by
  intro heap rest holds
  have member : (block, content) ∈ {(block, content)} + rest := by simp
  have found := holds.content_eq member
  refine ⟨(), 0, heap.erase block, ?_, ?_, rfl⟩
  · show (if _ then _ else none) = _
    rw [found]
    rfl
  · rw [zero_add]
    exact holds.erase

/-- A reallocated block replaces what `free` gives back, or a call fails and that stays. -/
theorem meets_realloc (fails : Nat → Bool) {ptr : Option Ptr} (content : β)
    (freed : Leaves (free ptr) own 0) :
    Meets (realloc fails ptr content) own fun result left =>
      (result = none ∧ left = own ∧ ∃ call, fails call = true) ∨
        ∃ fresh, result = some ⟨fresh, 0⟩ ∧ left = {(fresh, content)} := by
  apply (meets_alloc fails content).bind (zero_add own).symm
  rintro result left (⟨rfl, rfl, failed⟩ | ⟨fresh, rfl, rfl⟩)
  · exact .pure (.inl ⟨rfl, zero_add own, failed⟩)
  · apply freed.bind (add_comm _ _)
    exact .pure (.inr ⟨fresh, rfl, zero_add _⟩)

/-- From no heap with the blocks `own` the program has a result. -/
def Stuck (prog : Prog β α) (own : Multiset (Nat × β)) : Prop :=
  ∀ (heap : Heap β) (rest : Multiset (Nat × β)), heap.Holds (own + rest) → prog heap = none

/-- Nothing follows a program without a result. -/
theorem Stuck.bind (stuck : Stuck prog own) (next : α → Prog β γ) : Stuck (prog >>= next) own := by
  intro heap rest holds
  show (prog heap).bind _ = none
  rw [stuck heap rest holds]
  rfl

/-- More blocks do not help. -/
theorem Stuck.mono (stuck : Stuck prog own) {whole : Multiset (Nat × β)} (part : own ≤ whole) :
    Stuck prog whole := by
  obtain ⟨others, rfl⟩ := Multiset.le_iff_exists_add.mp part
  intro heap rest holds
  rw [add_assoc] at holds
  exact stuck heap (others + rest) holds

/-- A call has a result, and what follows it has none. -/
theorem Meets.thenStuck {whole : Multiset (Nat × β)} (meets : Meets prog own mid)
    (split : whole = own + rest)
    (follows : ∀ result left, mid result left → Stuck (next result) (left + rest)) :
    Stuck (prog >>= next) whole := by
  intro heap others holds
  rw [split, add_assoc] at holds
  obtain ⟨result, left, after, ran, ends, kept⟩ := meets heap (rest + others) holds
  rw [← add_assoc] at ends
  show (prog heap).bind _ = none
  rw [ran]
  exact follows result left kept after others ends

/-- A read, and what follows it has no result. -/
theorem Returns.thenStuck {result : α} (returns : Returns prog own result)
    (follows : Stuck (next result) own) : Stuck (prog >>= next) own := by
  apply Meets.thenStuck returns (add_zero own).symm
  rintro answer left ⟨rfl, rfl⟩
  rwa [add_zero]

/-- A program that owns nothing runs from an empty heap. -/
theorem Meets.run (meets : Meets prog 0 promise) :
    ∃ result left after, prog .empty = some (result, after) ∧ after.Holds left ∧
      promise result left := by
  obtain ⟨result, left, after, ran, ends, kept⟩ := meets .empty 0 rfl
  rw [add_zero] at ends
  exact ⟨result, left, after, ran, ends, kept⟩

end StreamPipeline.Blocks
