import Mathlib

/-!
# Descriptor tables

A process refers to its open files by small numbers. A new file takes the lowest free number,
`dup2` puts a file behind a chosen number, and `close` frees one. Every statement about a table
goes through `fileAt`, the file behind a number.
-/

namespace StreamPipeline.Descriptors

/-- The open files of a process, by descriptor. -/
abbrev Table (α : Type) := List (Option α)

variable {α : Type}

/-- The file behind a descriptor. -/
def fileAt : Table α → Nat → Option α
  | [], _ => none
  | entry :: _, 0 => entry
  | _ :: table, fd + 1 => fileAt table fd

/-- The table with one entry replaced. -/
def put : Table α → Nat → Option α → Table α
  | [], 0, entry => [entry]
  | [], fd + 1, entry => none :: put [] fd entry
  | _ :: table, 0, entry => entry :: table
  | other :: table, fd + 1, entry => other :: put table fd entry

/-- The lowest descriptor without a file. -/
def lowestFree : Table α → Nat
  | [] => 0
  | none :: _ => 0
  | some _ :: table => lowestFree table + 1

/-- The file behind the lowest free descriptor, and that descriptor. -/
def openFile (table : Table α) (file : α) : Nat × Table α :=
  (lowestFree table, put table (lowestFree table) (some file))

/-- `pipe`: the descriptors of the two ends, the read end first. -/
def pipe (table : Table α) (readEnd writeEnd : α) : (Nat × Nat) × Table α :=
  let first := openFile table readEnd
  let second := openFile first.2 writeEnd
  ((first.1, second.1), second.2)

/-- `dup2`; none when the old descriptor is not open. -/
def dup2 (table : Table α) (old new : Nat) : Option (Table α) :=
  (fileAt table old).map fun file => put table new (some file)

/-- `close`. -/
def close (table : Table α) (fd : Nat) : Table α := put table fd none

/-- A replaced entry is the only one that changes. -/
@[simp]
theorem fileAt_put (table : Table α) (fd : Nat) (entry : Option α) (other : Nat) :
    fileAt (put table fd entry) other = if other = fd then entry else fileAt table other := by
  induction fd generalizing table other with
  | zero => cases table <;> cases other <;> simp [put, fileAt]
  | succ fd ih =>
    cases table with
    | nil =>
      cases other with
      | zero => simp [put, fileAt]
      | succ other =>
        have deeper := ih [] other
        simpa [put, fileAt] using deeper
    | cons entry table =>
      cases other with
      | zero => simp [put, fileAt]
      | succ other =>
        have deeper := ih table other
        simpa [put, fileAt] using deeper

/-- A closed descriptor has no file, and the others keep theirs. -/
@[simp]
theorem fileAt_close (table : Table α) (fd other : Nat) :
    fileAt (close table fd) other = if other = fd then none else fileAt table other :=
  fileAt_put table fd none other

/-- The lowest free descriptor is free. -/
@[simp]
theorem fileAt_lowestFree (table : Table α) : fileAt table (lowestFree table) = none := by
  induction table with
  | nil => rfl
  | cons entry table ih =>
    cases entry with
    | none => rfl
    | some file => exact ih

/-- A free descriptor is not below the lowest one. -/
theorem lowestFree_le {table : Table α} {fd : Nat} (free : fileAt table fd = none) :
    lowestFree table ≤ fd := by
  induction table generalizing fd with
  | nil => exact Nat.zero_le fd
  | cons entry table ih =>
    cases entry with
    | none => exact Nat.zero_le fd
    | some file =>
      cases fd with
      | zero => contradiction
      | succ fd => exact Nat.succ_le_succ (ih free)

end StreamPipeline.Descriptors
