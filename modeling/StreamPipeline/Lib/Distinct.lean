import Mathlib

/-!
# The first distinct items

A list gives its first distinct items up to a limit, in the order in which each first appears.
One more item at the end comes in when it is new and there is room, and once there is no room
nothing comes in any more.
-/

namespace StreamPipeline.Distinct

variable {α : Type} [DecidableEq α]

/-- The first distinct items of a list, at most as many as the limit. -/
def firstDistinct (limit : Nat) (items : List α) : List α := items.eraseDups.take limit

/-- The first distinct items are items of the list. -/
theorem mem_of_mem_firstDistinct {limit : Nat} {items : List α} {item : α}
    (member : item ∈ firstDistinct limit items) : item ∈ items :=
  List.mem_eraseDups.mp (List.mem_of_mem_take member)

/-- Items that are all different are their own distinct items. -/
theorem eraseDups_of_nodup {items : List α} (distinct : items.Nodup) : items.eraseDups = items := by
  induction items with
  | nil => rfl
  | cons item rest ih =>
    have apart := List.nodup_cons.mp distinct
    have kept : (rest.filter fun other => !other == item) = rest := by
      apply List.filter_eq_self.mpr
      intro other member
      have different : other ≠ item := by
        rintro rfl
        exact apart.1 member
      simpa using different
    rw [List.eraseDups_cons, kept, ih apart.2]

/-- Different items within the limit are all there. -/
theorem firstDistinct_of_nodup {limit : Nat} {items : List α} (distinct : items.Nodup)
    (room : items.length ≤ limit) : firstDistinct limit items = items := by
  rw [firstDistinct, eraseDups_of_nodup distinct, List.take_of_length_le room]

/-- Once the limit is reached nothing comes in. -/
theorem firstDistinct_append_of_full {limit : Nat} {items : List α}
    (full : (firstDistinct limit items).length = limit) (more : List α) :
    firstDistinct limit (items ++ more) = firstDistinct limit items := by
  have enough : limit ≤ items.eraseDups.length := by
    rw [firstDistinct, List.length_take] at full
    omega
  rw [firstDistinct, List.eraseDups_append, List.take_append_of_le_length enough, firstDistinct]

/-- An item that is there comes in no second time. -/
theorem firstDistinct_snoc_of_mem {limit : Nat} {items : List α} {item : α}
    (old : item ∈ firstDistinct limit items) :
    firstDistinct limit (items ++ [item]) = firstDistinct limit items := by
  have member := mem_of_mem_firstDistinct old
  have none : [item].removeAll items = [] := by simp [List.removeAll, member]
  rw [firstDistinct, List.eraseDups_append, none, List.eraseDups_nil, List.append_nil,
    firstDistinct]

/-- A new item comes in last while there is room. -/
theorem firstDistinct_snoc_of_room {limit : Nat} {items : List α} {item : α}
    (new : item ∉ firstDistinct limit items)
    (room : (firstDistinct limit items).length < limit) :
    firstDistinct limit (items ++ [item]) = firstDistinct limit items ++ [item] := by
  have short : items.eraseDups.length < limit := by
    rw [firstDistinct, List.length_take] at room
    omega
  have whole : firstDistinct limit items = items.eraseDups :=
    List.take_of_length_le (Nat.le_of_lt short)
  rw [whole] at new ⊢
  have other : item ∉ items := fun member => new (List.mem_eraseDups.mpr member)
  have one : [item].removeAll items = [item] := by simp [List.removeAll, other]
  have single : [item].eraseDups = [item] := eraseDups_of_nodup (List.nodup_singleton item)
  have fits : (items.eraseDups ++ [item]).length ≤ limit := by
    rw [List.length_append, List.length_singleton]
    omega
  rw [firstDistinct, List.eraseDups_append, one, single, List.take_of_length_le fits]

end StreamPipeline.Distinct
