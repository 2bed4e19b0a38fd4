import Mathlib

/-!
# Stores into memory

A run of stores is a list of offsets and values, in order. Its image is what a block of memory
holds after it: the last value stored at each offset, and nothing where no store went.
-/

namespace StreamPipeline.Stores

variable {α : Type}

/-- Values stored at successive offsets. -/
def consecutive : Nat → List α → List (Nat × α)
  | _, [] => []
  | offset, value :: values => (offset, value) :: consecutive (offset + 1) values

/-- The last value stored at an offset. -/
def image (stores : List (Nat × α)) (offset : Nat) : Option α :=
  (stores.filter fun store => store.1 = offset).getLast?.map Prod.snd

/-- The stores leave exactly these values, from the start of the block on. -/
def Fills (stores : List (Nat × α)) (values : List α) : Prop :=
  ∀ offset, image stores offset = values[offset]?

/-- Later stores go over earlier ones. -/
theorem image_append (first second : List (Nat × α)) (offset : Nat) :
    image (first ++ second) offset = (image second offset).or (image first offset) := by
  rw [image, List.filter_append, List.getLast?_append, image, image]
  cases (second.filter fun store => store.1 = offset).getLast? <;> rfl

/-- One store. -/
theorem image_singleton (place : Nat) (value : α) (offset : Nat) :
    image [(place, value)] offset = if place = offset then some value else none := by
  by_cases here : place = offset <;> simp [image, here]

/-- Successive stores in two parts. -/
theorem consecutive_append (start : Nat) (first second : List α) :
    consecutive start (first ++ second) =
      consecutive start first ++ consecutive (start + first.length) second := by
  induction first generalizing start with
  | nil => rfl
  | cons value first ih =>
    rw [List.cons_append, consecutive, ih, consecutive, List.cons_append, List.length_cons,
      Nat.add_assoc, Nat.add_comm 1]

/-- Successive stores stay inside their range. -/
theorem mem_consecutive {start : Nat} {values : List α} {store : Nat × α}
    (member : store ∈ consecutive start values) :
    start ≤ store.1 ∧ store.1 < start + values.length := by
  induction values generalizing start with
  | nil => contradiction
  | cons value values ih =>
    rw [List.length_cons]
    rcases List.mem_cons.mp member with rfl | member
    · omega
    · have later := ih member
      omega

/-- What successive stores leave at an offset of their range. -/
theorem image_consecutive (start : Nat) (values : List α) (offset : Nat) :
    image (consecutive start values) (start + offset) = values[offset]? := by
  induction values generalizing start offset with
  | nil => rfl
  | cons value values ih =>
    have split : consecutive start (value :: values) =
        [(start, value)] ++ consecutive (start + 1) values := rfl
    rw [split, image_append, image_singleton]
    cases offset with
    | zero =>
      have none : image (consecutive (start + 1) values) (start + 0) = none := by
        rw [image, List.filter_eq_nil_iff.mpr, List.getLast?_nil, Option.map_none]
        intro store member
        have later := mem_consecutive member
        simp only [decide_eq_true_eq]
        omega
      rw [none, if_pos (Nat.add_zero start).symm]
      rfl
    | succ offset =>
      rw [Nat.add_comm offset 1, ← Nat.add_assoc, ih, if_neg (by omega), Option.or_none,
        Nat.add_comm 1 offset, List.getElem?_cons_succ]

/-- Successive stores from the start fill the block with their values. -/
theorem fills_consecutive (values : List α) : Fills (consecutive 0 values) values := by
  intro offset
  have here := image_consecutive 0 values offset
  rwa [Nat.zero_add] at here

/-- A store inside the values replaces one of them. -/
theorem Fills.set {stores : List (Nat × α)} {values : List α} (fills : Fills stores values)
    {place : Nat} (inside : place < values.length) (value : α) :
    Fills (stores ++ [(place, value)]) (values.set place value) := by
  intro offset
  rw [image_append, image_singleton, fills offset]
  by_cases here : place = offset
  · rw [if_pos here, ← here, List.getElem?_set_self inside]
    rfl
  · rw [if_neg here, List.getElem?_set_ne here]
    rfl

/-- A store right behind the values adds one. -/
theorem Fills.snoc {stores : List (Nat × α)} {values : List α} (fills : Fills stores values)
    (value : α) : Fills (stores ++ [(values.length, value)]) (values ++ [value]) := by
  intro offset
  rw [image_append, image_singleton, fills offset]
  by_cases here : values.length = offset
  · rw [if_pos here, ← here, List.getElem?_concat_length]
    rfl
  · rw [if_neg here, Option.none_or]
    rcases Nat.lt_or_gt_of_ne here with beyond | inside
    · rw [List.getElem?_eq_none (by omega), List.getElem?_eq_none (by simp; omega)]
    · rw [List.getElem?_append_left inside]

end StreamPipeline.Stores
