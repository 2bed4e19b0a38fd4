import StreamPipeline.Lib.Bytes

/-!
# Names, inodes and streams

A name leads to an inode and an inode holds bytes; opening a name fixes the inode, and renaming
moves a name to another one without touching what was opened before. Distinct names have distinct
inodes. A stream writes to an inode behind a buffer: what it was told to write is in the file or
still pending, and seeking to the end writes the pending bytes first.
-/

namespace StreamPipeline

/-- The number of an inode. -/
abbrev Inode := Nat

/-- A directory over the names, and the contents of the inodes. -/
structure FileSystem (name : Type) where
  /-- The inode behind a name. -/
  entry : name → Option Inode
  /-- The content of an inode. -/
  data : Inode → Bytes
  /-- The first inode that was never used. -/
  next : Inode
  /-- Names lead to used inodes. -/
  used : ∀ path inode, entry path = some inode → inode < next
  /-- No inode has two names. -/
  single : ∀ path other inode, entry path = some inode → entry other = some inode → path = other

namespace FileSystem

variable {name : Type} [DecidableEq name]

/-- The bytes seen through a name. -/
def content (files : FileSystem name) (path : name) : Bytes :=
  match files.entry path with
  | none => []
  | some inode => files.data inode

/-- A new empty file under a name that leads nowhere. -/
def create (files : FileSystem name) (path : name) : FileSystem name where
  entry := Function.update files.entry path (some files.next)
  data := Function.update files.data files.next []
  next := files.next + 1
  used := by
    intro other inode found
    by_cases same : other = path
    · subst same
      rw [Function.update_self] at found
      rw [← Option.some.inj found]
      exact Nat.lt_succ_self files.next
    · rw [Function.update_of_ne same] at found
      exact Nat.lt_succ_of_lt (files.used other inode found)
  single := by
    intro first second inode left right
    by_cases here : first = path <;> by_cases there : second = path
    · rw [here, there]
    · subst here
      rw [Function.update_self] at left
      rw [Function.update_of_ne there] at right
      have old := files.used second inode right
      rw [← Option.some.inj left] at old
      exact absurd old (Nat.lt_irrefl files.next)
    · subst there
      rw [Function.update_of_ne here] at left
      rw [Function.update_self] at right
      have old := files.used first inode left
      rw [← Option.some.inj right] at old
      exact absurd old (Nat.lt_irrefl files.next)
    · rw [Function.update_of_ne here] at left
      rw [Function.update_of_ne there] at right
      exact files.single first second inode left right

/-- `open` with `O_CREAT`: the files and the opened inode. -/
def openCreate (files : FileSystem name) (path : name) : FileSystem name × Inode :=
  match files.entry path with
  | some inode => (files, inode)
  | none => (files.create path, files.next)

/-- The content of an inode replaced. -/
def setData (files : FileSystem name) (inode : Inode) (bytes : Bytes) : FileSystem name :=
  { files with data := Function.update files.data inode bytes }

/-- `rename` over a name; none when the old name leads nowhere. -/
def rename (files : FileSystem name) (old new : name) (apart : old ≠ new) :
    Option (FileSystem name) :=
  match found : files.entry old with
  | none => none
  | some inode => some {
      entry := Function.update (Function.update files.entry new (some inode)) old none
      data := files.data
      next := files.next
      used := by
        intro path other leads
        by_cases gone : path = old
        · subst gone
          rw [Function.update_self] at leads
          contradiction
        · rw [Function.update_of_ne gone] at leads
          by_cases moved : path = new
          · subst moved
            rw [Function.update_self] at leads
            rw [← Option.some.inj leads]
            exact files.used old inode found
          · rw [Function.update_of_ne moved] at leads
            exact files.used path other leads
      single := by
        intro first second other left right
        have notOld : ∀ path, Function.update (Function.update files.entry new (some inode)) old
            none path = some other → path ≠ old := by
          rintro path leads rfl
          rw [Function.update_self] at leads
          contradiction
        have firstOld := notOld first left
        have secondOld := notOld second right
        rw [Function.update_of_ne firstOld] at left
        rw [Function.update_of_ne secondOld] at right
        by_cases here : first = new <;> by_cases there : second = new
        · rw [here, there]
        · subst here
          rw [Function.update_self] at left
          rw [Function.update_of_ne there, ← left] at right
          exact absurd (files.single second old inode right found) secondOld
        · subst there
          rw [Function.update_self] at right
          rw [Function.update_of_ne here, ← right] at left
          exact absurd (files.single first old inode left found) firstOld
        · rw [Function.update_of_ne here] at left
          rw [Function.update_of_ne there] at right
          exact files.single first second other left right }

/-- The content of a fresh file is empty, and that of other names stays. -/
theorem content_openCreate (files : FileSystem name) (path : name) :
    (files.openCreate path).1.content path = files.content path := by
  unfold openCreate
  split
  · rfl
  · rename_i missing
    simp [content, create, missing]

/-- Opening a name that leads somewhere changes nothing. -/
theorem openCreate_of_entry {files : FileSystem name} {path : name} {inode : Inode}
    (leads : files.entry path = some inode) : files.openCreate path = (files, inode) := by
  rw [openCreate, leads]

/-- An opened name leads to the opened inode. -/
theorem entry_openCreate (files : FileSystem name) (path : name) :
    (files.openCreate path).1.entry path = some (files.openCreate path).2 := by
  unfold openCreate
  split
  · assumption
  · simp [create]

/-- Opening a name leaves the others. -/
theorem entry_openCreate_of_ne (files : FileSystem name) {path other : name}
    (apart : other ≠ path) : (files.openCreate path).1.entry other = files.entry other := by
  unfold openCreate
  split
  · rfl
  · simp [create, apart]

/-- A successful rename moves the content to the new name. -/
theorem rename_eq_some {files after : FileSystem name} {old new : name} {apart : old ≠ new}
    (renamed : files.rename old new apart = some after) :
    after.content new = files.content old := by
  unfold rename at renamed
  split at renamed
  · contradiction
  · rename_i inode found
    rw [← Option.some.inj renamed]
    simp [content, apart.symm, found]

/-- Only a missing name makes a rename fail. -/
theorem rename_eq_none {files : FileSystem name} {old new : name} {apart : old ≠ new}
    (failed : files.rename old new apart = none) : files.entry old = none := by
  unfold rename at failed
  split at failed
  · assumption
  · contradiction

/-- No name leads to the inode any more. -/
structure Detached (files : FileSystem name) (inode : Inode) : Prop where
  nameless : ∀ path, files.entry path ≠ some inode
  used : inode < files.next

/-- Opening a name leads to no detached inode and leaves its content. -/
theorem Detached.openCreate {files : FileSystem name} {inode : Inode}
    (detached : files.Detached inode) (path : name) :
    (files.openCreate path).1.Detached inode ∧ (files.openCreate path).2 ≠ inode ∧
      (files.openCreate path).1.data inode = files.data inode := by
  cases leads : files.entry path with
  | some other =>
    rw [openCreate_of_entry leads]
    exact ⟨detached, fun same => detached.nameless path (same ▸ leads), rfl⟩
  | none =>
    have fresh : files.next ≠ inode := Nat.ne_of_gt detached.used
    have created : files.openCreate path = (files.create path, files.next) := by
      rw [FileSystem.openCreate, leads]
    rw [created]
    refine ⟨⟨?_, Nat.lt_succ_of_lt detached.used⟩, fresh, ?_⟩
    · intro other
      by_cases same : other = path
      · simp [create, same, fresh]
      · simpa [create, same] using detached.nameless other
    · simp [create, fresh.symm]

/-- A rename gives no detached inode a name. -/
theorem Detached.rename {files after : FileSystem name} {inode : Inode}
    (detached : files.Detached inode) {old new : name} {apart : old ≠ new}
    (renamed : files.rename old new apart = some after) :
    after.Detached inode ∧ after.data inode = files.data inode := by
  unfold FileSystem.rename at renamed
  split at renamed
  · contradiction
  · rename_i moved found
    have other : moved ≠ inode := fun same => detached.nameless old (same ▸ found)
    rw [← Option.some.inj renamed]
    refine ⟨⟨?_, detached.used⟩, rfl⟩
    intro path
    by_cases gone : path = old
    · simp [gone]
    · by_cases target : path = new
      · simp [target, apart.symm, other]
      · simpa [gone, target] using detached.nameless path

/-- A rename detaches the inode the new name led to. -/
theorem detached_of_rename {files after : FileSystem name} {inode : Inode} {old new : name}
    {apart : old ≠ new} (leads : files.entry new = some inode)
    (renamed : files.rename old new apart = some after) :
    after.Detached inode ∧ after.data inode = files.data inode ∧
      ∃ other, after.entry new = some other := by
  unfold FileSystem.rename at renamed
  split at renamed
  · contradiction
  · rename_i moved found
    have other : moved ≠ inode := fun same => apart (files.single old new moved found (same ▸ leads))
    rw [← Option.some.inj renamed]
    refine ⟨⟨?_, files.used new inode leads⟩, rfl, moved, by simp [apart.symm]⟩
    intro path
    by_cases gone : path = old
    · simp [gone]
    · by_cases target : path = new
      · simp [target, apart.symm, other]
      · intro also
        simp only [ne_eq, gone, not_false_eq_true, Function.update_of_ne, target] at also
        exact target (files.single path new inode also leads)

/-- Opening a name leaves the content of an inode behind another one. -/
theorem openCreate_of_other {files : FileSystem name} {path other : name} {inode : Inode}
    (leads : files.entry other = some inode) (apart : other ≠ path) :
    (files.openCreate path).2 ≠ inode ∧
      (files.openCreate path).1.data inode = files.data inode := by
  cases found : files.entry path with
  | some opened =>
    rw [openCreate_of_entry found]
    exact ⟨fun same => apart (files.single other path inode leads (same ▸ found)), rfl⟩
  | none =>
    have fresh : files.next ≠ inode := Nat.ne_of_gt (files.used other inode leads)
    have created : files.openCreate path = (files.create path, files.next) := by
      rw [openCreate, found]
    rw [created]
    exact ⟨fresh, by simp [create, fresh.symm]⟩

omit [DecidableEq name] in
/-- Writing to another inode leaves the content. -/
theorem data_setData_of_ne (files : FileSystem name) {inode other : Inode} (apart : inode ≠ other)
    (bytes : Bytes) : (files.setData other bytes).data inode = files.data inode := by
  simp [setData, apart]

end FileSystem

/-! ## Streams -/

/-- `pwrite` of bytes into a content: what lies behind the place is kept, and a gap before it is
filled with zeros. Nothing is written for no bytes. -/
def writeAt (content : Bytes) (place : Nat) (bytes : Bytes) : Bytes :=
  if bytes = [] then content
  else
    content.take place ++ List.replicate (place - content.length) 0 ++ bytes ++
      content.drop (place + bytes.length)

/-- Bytes written at the end are appended. -/
theorem writeAt_end (content bytes : Bytes) :
    writeAt content content.length bytes = content ++ bytes := by
  unfold writeAt
  split
  · rename_i nothing
    rw [nothing, List.append_nil]
  · rw [List.take_length, Nat.sub_self, List.drop_of_length_le (by omega)]
    simp

/-- A buffered writer on an inode. -/
structure Stream where
  /-- The inode. -/
  inode : Inode
  /-- The place the next written byte goes to. -/
  place : Nat
  /-- The bytes not yet written. -/
  pending : Bytes
  deriving DecidableEq

namespace Stream

variable {name : Type}

/-- A stream on an opened inode. -/
def start (inode : Inode) : Stream := ⟨inode, 0, []⟩

/-- The first bytes of the buffer are written. -/
def flush (stream : Stream) (count : Nat) (files : FileSystem name) :
    FileSystem name × Stream :=
  (files.setData stream.inode
      (writeAt (files.data stream.inode) stream.place (stream.pending.take count)),
    ⟨stream.inode, stream.place + (stream.pending.take count).length,
      stream.pending.drop count⟩)

/-- The whole buffer is written. -/
def flushAll (stream : Stream) (files : FileSystem name) : FileSystem name :=
  files.setData stream.inode (writeAt (files.data stream.inode) stream.place stream.pending)

/-- `fseek` to the end, which writes the buffer, and new bytes behind it. -/
def appendEnd (stream : Stream) (bytes : Bytes) (files : FileSystem name) :
    FileSystem name × Stream :=
  (stream.flushAll files,
    ⟨stream.inode, ((stream.flushAll files).data stream.inode).length, bytes⟩)

/-- What the file holds once the buffer is written, when the stream is at the end. -/
def content (stream : Stream) (files : FileSystem name) : Bytes :=
  files.data stream.inode ++ stream.pending

/-- Nothing is pending, or the next byte goes to the end of the file. -/
def Sound (stream : Stream) (files : FileSystem name) : Prop :=
  stream.pending = [] ∨ stream.place = (files.data stream.inode).length

/-- Writing the buffer leaves the content it stood for. -/
theorem data_flushAll {stream : Stream} {files : FileSystem name} (sound : stream.Sound files) :
    (stream.flushAll files).data stream.inode = stream.content files := by
  rw [flushAll, FileSystem.setData, content]
  show Function.update files.data stream.inode _ stream.inode = _
  rw [Function.update_self]
  rcases sound with nothing | atEnd
  · simp [nothing, writeAt]
  · rw [atEnd, writeAt_end]

/-- Writing nothing changes nothing. -/
theorem flushAll_of_pending {stream : Stream} (files : FileSystem name)
    (nothing : stream.pending = []) : stream.flushAll files = files := by
  simp [flushAll, FileSystem.setData, nothing, writeAt]

/-- A partial write changes nothing when nothing is pending. -/
theorem flush_of_pending {stream : Stream} (count : Nat) (files : FileSystem name)
    (nothing : stream.pending = []) : stream.flush count files = (files, stream) := by
  obtain ⟨inode, place, pending⟩ := stream
  subst nothing
  simp [flush, FileSystem.setData, writeAt]

/-- A partial write keeps the content and the place. -/
theorem flush_content {stream : Stream} {files : FileSystem name} (sound : stream.Sound files)
    (count : Nat) :
    (stream.flush count files).2.content (stream.flush count files).1 = stream.content files ∧
      (stream.flush count files).2.Sound (stream.flush count files).1 := by
  rcases sound with nothing | atEnd
  · rw [flush_of_pending count files nothing]
    exact ⟨rfl, .inl nothing⟩
  · have written : (stream.flush count files).1.data stream.inode =
        files.data stream.inode ++ stream.pending.take count := by
      rw [flush, atEnd, writeAt_end]
      exact Function.update_self ..
    constructor
    · show (stream.flush count files).1.data stream.inode ++ stream.pending.drop count = _
      rw [written, List.append_assoc, List.take_append_drop, content]
    · right
      show stream.place + _ = ((stream.flush count files).1.data stream.inode).length
      rw [written, List.length_append, atEnd]

/-- Appended bytes come behind the content. -/
theorem appendEnd_content {stream : Stream} {files : FileSystem name}
    (sound : stream.Sound files) (bytes : Bytes) :
    (stream.appendEnd bytes files).2.content (stream.appendEnd bytes files).1 =
        stream.content files ++ bytes ∧
      (stream.appendEnd bytes files).2.Sound (stream.appendEnd bytes files).1 := by
  constructor
  · show (stream.flushAll files).data stream.inode ++ bytes = _
    rw [data_flushAll sound]
  · exact .inr rfl

end Stream

end StreamPipeline
