import StreamPipeline.Lib.Bytes

/-!
# Event tag sets

`sm_events.c` keeps at most sixteen tags of fewer than sixty-four bytes in fixed storage. The
storage bounds are part of the type; the absence of duplicates is not, because only
`sm_event_set_add_tag` establishes it.
-/

namespace StreamPipeline.Merge

/-- `SM_EVENT_MAX_ITEMS`. -/
def smEventMaxItems : Nat := 16
/-- `SM_EVENT_MAX_LEN`, terminator included. -/
def smEventMaxLen : Nat := 64

/-- `sm_event_set_t` — the first `count` items, each a string inside its slot. -/
structure EventSet where
  /-- Stored tags, oldest first. -/
  items : List CStr
  /-- The slots are not exceeded. -/
  bounded : items.length ≤ smEventMaxItems
  /-- Every tag leaves room for its terminator. -/
  fits : ∀ tag ∈ items, tag.bytes.length < smEventMaxLen
  deriving DecidableEq

namespace EventSet

/-- `sm_event_set_reset` — the zeroed set. -/
def reset : EventSet := ⟨[], by simp, by simp⟩

/-- `sm_event_set_add_tag` — `none` is the result `-1`, which leaves the set unchanged. -/
def addTag (set : EventSet) (tag : CStr) : Option EventSet :=
  if tag.bytes = [] then none
  else if short : tag.bytes.length < smEventMaxLen then
    if tag ∈ set.items then some set
    else if room : set.items.length < smEventMaxItems then
      some ⟨set.items ++ [tag], by simpa using Nat.succ_le_of_lt room, by
        intro stored member
        rcases List.mem_append.mp member with old | new
        · exact set.fits stored old
        · rwa [List.mem_singleton.mp new]⟩
    else none
  else none

/-- The loop of `sm_event_set_add_all`: it stops at the first tag that cannot be added and
keeps the tags added before it. The flag is the result `0`. -/
def addTags (dst : EventSet) : List CStr → EventSet × Bool
  | [] => (dst, true)
  | tag :: rest =>
    match dst.addTag tag with
    | none => (dst, false)
    | some grown => grown.addTags rest

/-- `sm_event_set_add_all`. -/
def addAll (dst src : EventSet) : EventSet × Bool := dst.addTags src.items

end EventSet

end StreamPipeline.Merge
