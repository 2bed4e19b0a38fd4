import Mathlib

/-!
# Open addressing with linear probing

A bucket list whose length is a power of two. The search for a key starts at its hash and
advances one bucket at a time until it meets the key or an empty bucket. A table carries the
empty bucket that ends every search and the fact that every stored entry is the one a search
for its key finds.
-/

namespace StreamPipeline.Probing

variable {α κ : Type} [DecidableEq κ] {key : α → κ} {hash : κ → Nat}

/-- A bucket number reduced to the capacity by its mask. -/
def wrap (capacity index : Nat) : Nat := index &&& (capacity - 1)

/-- The search for a key from a bucket on: where it stops, and whether the key is there. -/
def probe (key : α → κ) (slots : List (Option α)) (wanted : κ) : Nat → Nat → Option (Nat × Bool)
  | 0, _ => none
  | fuel + 1, index =>
    match slots[index]?.join with
    | none => some (index, false)
    | some entry =>
      if key entry = wanted then some (index, true)
      else probe key slots wanted fuel (wrap slots.length (index + 1))

/-- Buckets with an empty one among them, where every search for a stored key succeeds. -/
structure Table (key : α → κ) (hash : κ → Nat) where
  /-- The buckets. -/
  slots : List (Option α)
  /-- The capacity is a power of two. -/
  power : ∃ bits, slots.length = 2 ^ bits
  /-- A bucket is empty. -/
  spare : none ∈ slots
  /-- A search for the key of a stored entry stops at that entry. -/
  reachable : ∀ index entry, slots[index]? = some (some entry) →
    probe key slots (key entry) slots.length (wrap slots.length (hash (key entry))) =
      some (index, true)

/-! ## Searching -/

/-- The mask of a power of two is the remainder. -/
theorem wrap_eq_mod {capacity : Nat} (power : ∃ bits, capacity = 2 ^ bits) (index : Nat) :
    wrap capacity index = index % capacity := by
  obtain ⟨bits, rfl⟩ := power
  exact Nat.and_two_pow_sub_one_eq_mod index bits

/-- A search that does not stop has seen only occupied buckets. -/
theorem probe_none {slots : List (Option α)} (power : ∃ bits, slots.length = 2 ^ bits)
    {wanted : κ} {fuel index : Nat} (inside : index < slots.length)
    (endless : probe key slots wanted fuel index = none) :
    ∀ step < fuel, slots[(index + step) % slots.length]? ≠ some none := by
  induction fuel generalizing index with
  | zero => simp
  | succ fuel ih =>
    intro step bound
    simp only [probe] at endless
    split at endless
    · contradiction
    · rename_i entry occupied
      split at endless
      · contradiction
      · rw [wrap_eq_mod power] at endless
        have next : (index + 1) % slots.length < slots.length := Nat.mod_lt _ (by omega)
        cases step with
        | zero =>
          rw [Nat.add_zero, Nat.mod_eq_of_lt inside]
          intro empty
          rw [empty] at occupied
          contradiction
        | succ step =>
          have later := ih next endless step (by omega)
          rwa [Nat.mod_add_mod, show index + 1 + step = index + (step + 1) by omega] at later

/-- Every search in a list with an empty bucket stops. -/
theorem probe_stops {slots : List (Option α)} (power : ∃ bits, slots.length = 2 ^ bits)
    (spare : none ∈ slots) (wanted : κ) (start : Nat) :
    (probe key slots wanted slots.length (wrap slots.length start)).isSome = true := by
  obtain ⟨index, bound, empty⟩ := List.mem_iff_getElem.mp spare
  rw [wrap_eq_mod power]
  have home : start % slots.length < slots.length := Nat.mod_lt _ (by omega)
  cases endless : probe key slots wanted slots.length (start % slots.length) with
  | some stop => rfl
  | none =>
    have seen := probe_none power home endless
      ((index + slots.length - start % slots.length) % slots.length) (Nat.mod_lt _ (by omega))
    rw [Nat.add_mod_mod, show start % slots.length + (index + slots.length - start % slots.length) =
      index + slots.length by omega, Nat.add_mod_right, Nat.mod_eq_of_lt bound,
      List.getElem?_eq_getElem bound, empty] at seen
    contradiction

/-- Where a search stops, the bucket is empty or holds the key. -/
theorem probe_some {slots : List (Option α)} {wanted : κ} {fuel index stop : Nat} {found : Bool}
    (stopped : probe key slots wanted fuel index = some (stop, found)) :
    (found = false ∧ slots[stop]?.join = none) ∨
      (found = true ∧ ∃ entry, slots[stop]? = some (some entry) ∧ key entry = wanted) := by
  induction fuel generalizing index with
  | zero => contradiction
  | succ fuel ih =>
    simp only [probe] at stopped
    split at stopped
    · rename_i empty
      obtain ⟨rfl, rfl⟩ := Prod.mk.inj (Option.some.inj stopped)
      exact .inl ⟨rfl, empty⟩
    · rename_i entry occupied
      split at stopped
      · rename_i same
        obtain ⟨rfl, rfl⟩ := Prod.mk.inj (Option.some.inj stopped)
        exact .inr ⟨rfl, entry, Option.join_eq_some_iff.mp occupied, same⟩
      · exact ih stopped

/-- A search stays inside the buckets. -/
theorem probe_lt {slots : List (Option α)} (power : ∃ bits, slots.length = 2 ^ bits)
    {wanted : κ} {fuel index stop : Nat} {found : Bool} (inside : index < slots.length)
    (stopped : probe key slots wanted fuel index = some (stop, found)) : stop < slots.length := by
  induction fuel generalizing index with
  | zero => contradiction
  | succ fuel ih =>
    simp only [probe] at stopped
    split at stopped
    · obtain ⟨rfl, rfl⟩ := Prod.mk.inj (Option.some.inj stopped)
      exact inside
    · split at stopped
      · obtain ⟨rfl, rfl⟩ := Prod.mk.inj (Option.some.inj stopped)
        exact inside
      · rw [wrap_eq_mod power] at stopped
        exact ih (Nat.mod_lt _ (by omega)) stopped

/-- A search stops some steps on and crosses only occupied buckets. -/
theorem probe_path {slots : List (Option α)} (power : ∃ bits, slots.length = 2 ^ bits)
    {wanted : κ} {fuel index stop : Nat} {found : Bool} (inside : index < slots.length)
    (stopped : probe key slots wanted fuel index = some (stop, found)) :
    ∃ steps < fuel, stop = (index + steps) % slots.length ∧
      ∀ earlier < steps, ∃ entry, slots[(index + earlier) % slots.length]? = some (some entry) := by
  induction fuel generalizing index with
  | zero => contradiction
  | succ fuel ih =>
    have start : index % slots.length = index := Nat.mod_eq_of_lt inside
    have here : ∀ {answer : Bool}, some (index, answer) = some (stop, found) →
        ∃ steps < fuel + 1, stop = (index + steps) % slots.length ∧
          ∀ earlier < steps, ∃ entry,
            slots[(index + earlier) % slots.length]? = some (some entry) := by
      intro answer same
      have place := (Prod.mk.inj (Option.some.inj same)).1
      exact ⟨0, Nat.succ_pos fuel, by rw [Nat.add_zero, start, place], by simp⟩
    simp only [probe] at stopped
    split at stopped
    · exact here stopped
    · rename_i entry occupied
      split at stopped
      · exact here stopped
      · rw [wrap_eq_mod power] at stopped
        obtain ⟨steps, bound, place, crossed⟩ := ih (Nat.mod_lt _ (by omega)) stopped
        refine ⟨steps + 1, by omega, ?_, ?_⟩
        · rw [place, Nat.mod_add_mod]
          congr 1
          omega
        · intro earlier before
          cases earlier with
          | zero =>
            rw [Nat.add_zero, start]
            exact ⟨entry, Option.join_eq_some_iff.mp occupied⟩
          | succ earlier =>
            have later := crossed earlier (by omega)
            rwa [Nat.mod_add_mod, show index + 1 + earlier = index + (earlier + 1) by omega]
              at later

/-! ## Storing -/

/-- Replacing an entry by one of the same key changes no search. -/
theorem probe_set_same {slots : List (Option α)} {place : Nat} {old entry : α}
    (stored : slots[place]? = some (some old)) (same : key old = key entry) (wanted : κ)
    (fuel index : Nat) :
    probe key (slots.set place (some entry)) wanted fuel index =
      probe key slots wanted fuel index := by
  induction fuel generalizing index with
  | zero => rfl
  | succ fuel ih =>
    have bound := (List.getElem?_eq_some_iff.mp stored).1
    simp only [probe, List.length_set, ih]
    by_cases here : place = index
    · subst here
      rw [List.getElem?_set_self bound, stored]
      simp [same]
    · rw [List.getElem?_set_ne here]

/-- Filling an empty bucket keeps every search that found its key. -/
theorem probe_set_found {slots : List (Option α)} {empty : Nat}
    (free : slots[empty]?.join = none) (entry : α) {wanted : κ} {fuel index stop : Nat}
    (stopped : probe key slots wanted fuel index = some (stop, true)) :
    probe key (slots.set empty (some entry)) wanted fuel index = some (stop, true) := by
  induction fuel generalizing index with
  | zero => contradiction
  | succ fuel ih =>
    simp only [probe, List.length_set] at stopped ⊢
    have apart : ∀ other, slots[index]?.join = some other → empty ≠ index := by
      rintro other occupied rfl
      rw [free] at occupied
      contradiction
    split at stopped
    · exact absurd (Prod.mk.inj (Option.some.inj stopped)).2 (by decide)
    · rename_i other occupied
      rw [List.getElem?_set_ne (apart other occupied), occupied]
      split at stopped
      · rename_i same
        simp [same, stopped]
      · rename_i differs
        simp only [differs, ↓reduceIte]
        exact ih stopped

/-- Filling the bucket a search stopped at makes the search find its key there. -/
theorem probe_set_new {slots : List (Option α)} {entry : α} {fuel index stop : Nat}
    (bound : stop < slots.length)
    (stopped : probe key slots (key entry) fuel index = some (stop, false)) :
    probe key (slots.set stop (some entry)) (key entry) fuel index = some (stop, true) := by
  have free : slots[stop]?.join = none := by
    rcases probe_some stopped with ⟨-, free⟩ | ⟨wrong, -⟩
    · exact free
    · contradiction
  induction fuel generalizing index with
  | zero => contradiction
  | succ fuel ih =>
    simp only [probe, List.length_set] at stopped ⊢
    by_cases here : stop = index
    · subst here
      rw [List.getElem?_set_self bound]
      simp
    · rw [List.getElem?_set_ne here]
      split at stopped
      · exact absurd (Prod.mk.inj (Option.some.inj stopped)).1 (Ne.symm here)
      · split at stopped
        · exact absurd (Prod.mk.inj (Option.some.inj stopped)).2 (by decide)
        · rename_i differs
          simp only [differs, ↓reduceIte]
          exact ih stopped

namespace Table

/-- The bucket a search stops at, and whether it holds the key. -/
def find (table : Table key hash) (wanted : κ) : Nat × Bool :=
  (probe key table.slots wanted table.slots.length
    (wrap table.slots.length (hash wanted))).get
      (probe_stops table.power table.spare wanted (hash wanted))

/-- The stored entry of a key. -/
def get (table : Table key hash) (wanted : κ) : Option α :=
  if (table.find wanted).2 then table.slots[(table.find wanted).1]?.join else none

/-- The stored entries in bucket order. -/
def entries (table : Table key hash) : List α := table.slots.filterMap id

/-- The number of empty buckets. -/
def free (table : Table key hash) : Nat := table.slots.countP Option.isNone

/-- The search that `find` makes. -/
theorem probe_eq_find (table : Table key hash) (wanted : κ) :
    probe key table.slots wanted table.slots.length (wrap table.slots.length (hash wanted)) =
      some (table.find wanted) :=
  (Option.some_get _).symm

/-- A table has buckets. -/
theorem slots_pos (table : Table key hash) : 0 < table.slots.length :=
  List.length_pos_of_mem table.spare

/-- A search starts inside the table. -/
theorem wrap_lt (table : Table key hash) (start : Nat) :
    wrap table.slots.length start < table.slots.length := by
  rw [wrap_eq_mod table.power]
  exact Nat.mod_lt _ table.slots_pos

/-- A search stops inside the table. -/
theorem find_lt (table : Table key hash) (wanted : κ) :
    (table.find wanted).1 < table.slots.length :=
  probe_lt table.power (table.wrap_lt (hash wanted)) (table.probe_eq_find wanted)

/-- The bucket a search stops at is empty or holds the key. -/
theorem find_cases (table : Table key hash) (wanted : κ) :
    ((table.find wanted).2 = false ∧ table.slots[(table.find wanted).1]?.join = none) ∨
      ((table.find wanted).2 = true ∧
        ∃ entry, table.slots[(table.find wanted).1]? = some (some entry) ∧ key entry = wanted) := by
  have stopped := table.probe_eq_find wanted
  generalize table.find wanted = answer at stopped ⊢
  exact probe_some stopped

/-- A key has at most one entry, and `get` returns it. -/
theorem get_eq_some_iff (table : Table key hash) (wanted : κ) (entry : α) :
    table.get wanted = some entry ↔ some entry ∈ table.slots ∧ key entry = wanted := by
  have stopped := table.probe_eq_find wanted
  unfold get
  generalize table.find wanted = answer at stopped ⊢
  obtain ⟨stop, found⟩ := answer
  constructor
  · intro got
    rcases probe_some stopped with ⟨rfl, -⟩ | ⟨rfl, other, stored, same⟩
    · contradiction
    · rw [if_pos rfl, stored, Option.join_some, Option.some.injEq] at got
      subst got
      exact ⟨List.mem_of_getElem? stored, same⟩
  · rintro ⟨member, rfl⟩
    obtain ⟨index, bound, stored⟩ := List.mem_iff_getElem.mp member
    have stored : table.slots[index]? = some (some entry) := by
      rw [List.getElem?_eq_getElem bound, stored]
    have same := table.reachable index entry stored
    rw [stopped, Option.some.injEq, Prod.mk.injEq] at same
    obtain ⟨rfl, rfl⟩ := same
    rw [if_pos rfl, stored]
    rfl

/-- The stored entries are the ones `get` returns. -/
theorem mem_entries (table : Table key hash) (entry : α) :
    entry ∈ table.entries ↔ table.get (key entry) = some entry := by
  rw [get_eq_some_iff]
  simp [entries]

/-- Entries in different buckets have different keys. -/
theorem entries_nodup (table : Table key hash) : (table.entries.map key).Nodup := by
  rw [List.Nodup, List.pairwise_map, entries, List.pairwise_filterMap, List.pairwise_iff_getElem]
  intro i j iBound jBound order left leftStored right rightStored same
  have first : table.slots[i]? = some (some left) := by
    rw [List.getElem?_eq_getElem iBound]
    exact congrArg some leftStored
  have second : table.slots[j]? = some (some right) := by
    rw [List.getElem?_eq_getElem jBound]
    exact congrArg some rightStored
  have stop := table.reachable i left first
  rw [same, table.reachable j right second, Option.some.injEq, Prod.mk.injEq] at stop
  omega

/-- Entries and empty buckets fill the table. -/
theorem entries_add_free (table : Table key hash) :
    table.entries.length + table.free = table.slots.length := by
  unfold entries free
  induction table.slots with
  | nil => rfl
  | cons slot slots ih =>
    cases slot with
    | none =>
      show (slots.filterMap id).length + (none :: slots).countP Option.isNone = slots.length + 1
      rw [List.countP_cons_of_pos rfl]
      omega
    | some entry =>
      show (slots.filterMap id).length + 1 + (some entry :: slots).countP Option.isNone =
        slots.length + 1
      rw [List.countP_cons_of_neg (by simp)]
      omega

/-- Store an entry in the bucket its key is searched at. -/
def put (table : Table key hash) (entry : α) (room : 1 < table.free) : Table key hash where
  slots := table.slots.set (table.find (key entry)).1 (some entry)
  power := by simpa using table.power
  spare := by
    have bound := table.find_lt (key entry)
    have left : 0 < (table.slots.set (table.find (key entry)).1 (some entry)).countP
        Option.isNone := by
      rw [List.countP_set (h := bound)]
      unfold free at room
      split <;> omega
    obtain ⟨slot, member, empty⟩ := List.countP_pos_iff.mp left
    rwa [Option.isNone_iff_eq_none.mp empty] at member
  reachable := by
    have bound := table.find_lt (key entry)
    have stopped := table.probe_eq_find (key entry)
    generalize table.find (key entry) = answer at bound stopped ⊢
    obtain ⟨stop, found⟩ := answer
    intro index other stored
    rw [List.length_set]
    by_cases here : stop = index
    · subst here
      rw [List.getElem?_set_self bound, Option.some.injEq, Option.some.injEq] at stored
      subst stored
      rcases probe_some stopped with ⟨rfl, -⟩ | ⟨rfl, old, replaced, same⟩
      · exact probe_set_new bound stopped
      · rw [probe_set_same replaced same]
        exact stopped
    · rw [List.getElem?_set_ne here] at stored
      have kept := table.reachable index other stored
      rcases probe_some stopped with ⟨rfl, free⟩ | ⟨rfl, old, replaced, same⟩
      · exact probe_set_found free entry kept
      · rw [probe_set_same replaced same]
        exact kept

/-- The entries after one was stored: it, and those of other keys. -/
private theorem mem_put (table : Table key hash) (entry : α) (room : 1 < table.free) (other : α) :
    some other ∈ (table.put entry room).slots ↔
      other = entry ∨ some other ∈ table.slots ∧ key other ≠ key entry := by
  have bound := table.find_lt (key entry)
  have stored : some entry ∈ (table.put entry room).slots := List.mem_set bound (some entry)
  constructor
  · intro member
    by_cases same : key other = key entry
    · have first := ((table.put entry room).get_eq_some_iff _ other).mpr ⟨member, same⟩
      have second := ((table.put entry room).get_eq_some_iff _ entry).mpr ⟨stored, rfl⟩
      rw [first, Option.some.injEq] at second
      exact .inl second
    · rcases List.mem_or_eq_of_mem_set member with kept | new
      · exact .inr ⟨kept, same⟩
      · exact .inl (Option.some.inj new)
  · intro kept
    rcases kept with same | ⟨member, differs⟩
    · exact same ▸ stored
    · obtain ⟨index, inside⟩ := List.mem_iff_getElem?.mp member
      have apart : (table.find (key entry)).1 ≠ index := by
        intro here
        rcases table.find_cases (key entry) with ⟨-, free⟩ | ⟨-, old, replaced, same⟩
        · rw [here, inside] at free
          contradiction
        · rw [here, inside, Option.some.injEq, Option.some.injEq] at replaced
          exact differs (replaced ▸ same)
      exact List.mem_iff_getElem?.mpr ⟨index, (List.getElem?_set_ne apart).trans inside⟩

/-- What a table holds after an entry was stored. -/
theorem get_put (table : Table key hash) (entry : α) (room : 1 < table.free) (wanted : κ) :
    (table.put entry room).get wanted =
      if key entry = wanted then some entry else table.get wanted := by
  apply Option.ext
  intro other
  rw [get_eq_some_iff, mem_put]
  by_cases here : key entry = wanted
  · rw [if_pos here, Option.some.injEq]
    constructor
    · rintro ⟨rfl | ⟨-, differs⟩, same⟩
      · rfl
      · exact absurd (same.trans here.symm) differs
    · rintro rfl
      exact ⟨.inl rfl, here⟩
  · rw [if_neg here, get_eq_some_iff]
    constructor
    · rintro ⟨rfl | ⟨member, -⟩, same⟩
      · exact absurd same here
      · exact ⟨member, same⟩
    · rintro ⟨member, rfl⟩
      exact ⟨.inr ⟨member, Ne.symm here⟩, rfl⟩

/-- Storing takes at most one empty bucket. -/
theorem free_put (table : Table key hash) (entry : α) (room : 1 < table.free) :
    table.free ≤ (table.put entry room).free + 1 := by
  have bound := table.find_lt (key entry)
  show table.slots.countP Option.isNone ≤
    (table.slots.set (table.find (key entry)).1 (some entry)).countP Option.isNone + 1
  rw [List.countP_set (h := bound)]
  split <;> omega

/-- Storing keeps the capacity. -/
@[simp]
theorem length_put (table : Table key hash) (entry : α) (room : 1 < table.free) :
    (table.put entry room).slots.length = table.slots.length :=
  List.length_set

/-- A table of empty buckets. -/
def blank (key : α → κ) (hash : κ → Nat) (capacity : Nat)
    (power : ∃ bits, capacity = 2 ^ bits) : Table key hash where
  slots := List.replicate capacity none
  power := by simpa using power
  spare := by
    obtain ⟨bits, rfl⟩ := power
    simp
  reachable := by
    intro index entry stored
    have member := List.mem_of_getElem? stored
    simp at member

/-- A blank table is empty. -/
@[simp]
theorem free_blank (capacity : Nat) (power : ∃ bits, capacity = 2 ^ bits) :
    (blank key hash capacity power).free = capacity := by
  show (List.replicate capacity (none : Option α)).countP Option.isNone = capacity
  rw [List.countP_replicate]
  rfl

/-- Store entries one after the other. -/
def putAll (table : Table key hash) : (entries : List α) → entries.length < table.free →
    Table key hash
  | [], _ => table
  | entry :: entries, room =>
    have roomy : 1 < table.free := by
      simp only [List.length_cons] at room
      omega
    have later := table.free_put entry roomy
    (table.put entry roomy).putAll entries (by simp only [List.length_cons] at room; omega)

/-- The entries after storing entries of different keys: them, and those of other keys. -/
private theorem mem_putAll (table : Table key hash) (entries : List α)
    (room : entries.length < table.free) (distinct : (entries.map key).Nodup) (other : α) :
    some other ∈ (table.putAll entries room).slots ↔
      other ∈ entries ∨ some other ∈ table.slots ∧ key other ∉ entries.map key := by
  induction entries generalizing table with
  | nil => simp [putAll]
  | cons entry entries ih =>
    rw [List.map_cons, List.nodup_cons] at distinct
    rw [putAll, ih _ _ distinct.2, mem_put]
    constructor
    · rintro (member | ⟨rfl | ⟨member, differs⟩, fresh⟩)
      · exact .inl (by simp [member])
      · exact .inl (by simp)
      · exact .inr ⟨member, by simp [differs, fresh]⟩
    · rintro (member | ⟨member, fresh⟩)
      · rcases List.mem_cons.mp member with rfl | member
        · exact .inr ⟨.inl rfl, distinct.1⟩
        · exact .inl member
      · rw [List.map_cons, List.mem_cons, not_or] at fresh
        exact .inr ⟨.inr ⟨member, fresh.1⟩, fresh.2⟩

/-- The capacity after storing entries. -/
theorem length_putAll (table : Table key hash) (entries : List α)
    (room : entries.length < table.free) :
    (table.putAll entries room).slots.length = table.slots.length := by
  induction entries generalizing table with
  | nil => rfl
  | cons entry entries ih => rw [putAll, ih, length_put]

/-- Storing adds an entry exactly when the key is new. -/
theorem length_entries_put (table : Table key hash) (entry : α) (room : 1 < table.free) :
    (table.put entry room).entries.length =
      table.entries.length + if (table.find (key entry)).2 then 0 else 1 := by
  have bound := table.find_lt (key entry)
  have before := table.entries_add_free
  have after := (table.put entry room).entries_add_free
  rw [length_put] at after
  have changed : (table.put entry room).free = table.slots.countP Option.isNone -
      (if (table.slots[(table.find (key entry)).1]).isNone = true then 1 else 0) + 0 :=
    List.countP_set (h := bound)
  have slot : (table.slots[(table.find (key entry)).1]).isNone = !(table.find (key entry)).2 := by
    have stop := List.getElem?_eq_getElem bound
    rcases table.find_cases (key entry) with ⟨found, empty⟩ | ⟨found, old, replaced, -⟩
    · rw [stop, Option.join_some] at empty
      rw [empty, found]
      rfl
    · rw [stop, Option.some.injEq] at replaced
      rw [replaced, found]
      rfl
  rw [slot] at changed
  change 1 < table.free at room
  unfold free at before after room changed
  generalize (table.find (key entry)).2 = found at changed ⊢
  cases found with
  | false =>
    simp only [Bool.not_false, Bool.false_eq_true, ↓reduceIte] at changed ⊢
    omega
  | true =>
    simp only [Bool.not_true, Bool.false_eq_true, ↓reduceIte] at changed ⊢
    omega

/-- A key without an entry is not found. -/
theorem find_of_get_none {table : Table key hash} {wanted : κ} (absent : table.get wanted = none) :
    (table.find wanted).2 = false := by
  rcases table.find_cases wanted with ⟨found, -⟩ | ⟨found, entry, stored, -⟩
  · exact found
  · rw [get, if_pos found, stored] at absent
    contradiction

/-- Storing entries of new and different keys adds them all. -/
theorem length_entries_putAll (table : Table key hash) (entries : List α)
    (room : entries.length < table.free) (distinct : (entries.map key).Nodup)
    (fresh : ∀ entry ∈ entries, table.get (key entry) = none) :
    (table.putAll entries room).entries.length = table.entries.length + entries.length := by
  induction entries generalizing table with
  | nil => rfl
  | cons entry entries ih =>
    rw [List.map_cons, List.nodup_cons] at distinct
    have later : ∀ other ∈ entries, (table.put entry (by
        simp only [List.length_cons] at room
        omega)).get (key other) = none := by
      intro other member
      rw [get_put, if_neg, fresh other (by simp [member])]
      intro same
      exact distinct.1 (same ▸ List.mem_map_of_mem member)
    rw [putAll, ih _ _ distinct.2 later, length_entries_put,
      find_of_get_none (fresh entry (by simp)), List.length_cons]
    simp only [Bool.false_eq_true, ↓reduceIte]
    omega

/-- Every entry moved to a blank table. -/
def rehash (table : Table key hash) (capacity : Nat) (power : ∃ bits, capacity = 2 ^ bits)
    (room : table.entries.length < capacity) : Table key hash :=
  (blank key hash capacity power).putAll table.entries (by rwa [free_blank])

section Rehash

variable (table : Table key hash) {capacity : Nat} (power : ∃ bits, capacity = 2 ^ bits)
  (room : table.entries.length < capacity)

/-- No search answers in a blank table. -/
theorem get_blank (wanted : κ) : (blank key hash capacity power).get wanted = none := by
  apply Option.eq_none_iff_forall_ne_some.mpr
  intro entry got
  have member := ((get_eq_some_iff _ _ _).mp got).1
  simp [blank] at member

/-- Moving the entries changes no answer. -/
@[simp]
theorem get_rehash (wanted : κ) : (table.rehash capacity power room).get wanted =
    table.get wanted := by
  apply Option.ext
  intro entry
  rw [rehash, get_eq_some_iff, get_eq_some_iff, mem_putAll _ _ _ table.entries_nodup]
  simp [blank, entries]

/-- Moving the entries gives the new capacity. -/
@[simp]
theorem length_rehash : (table.rehash capacity power room).slots.length = capacity := by
  rw [rehash, length_putAll]
  simp [blank]

/-- Moving the entries keeps their number. -/
@[simp]
theorem length_entries_rehash :
    (table.rehash capacity power room).entries.length = table.entries.length := by
  rw [rehash, length_entries_putAll _ _ _ table.entries_nodup fun entry _ => get_blank power _]
  simp [blank, entries]

end Rehash

end Table

end StreamPipeline.Probing
