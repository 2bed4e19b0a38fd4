import Mathlib

/-!
# Bytes and NUL-terminated strings

C text is a byte list without the terminator. `CStr` carries the absence of an inner NUL in
its value, so a string read from memory cannot hide bytes behind a terminator. The cutting
functions are the ones `strchr`, `strcspn` and `getline` compute.
-/

namespace StreamPipeline

/-- Raw bytes in memory or file order. -/
abbrev Bytes := List UInt8

/-- The bytes of a literal whose characters are all ASCII. -/
def ascii (text : String) : Bytes := text.toList.map fun c => UInt8.ofNat c.toNat

/-- Horizontal tab. -/
abbrev tab : UInt8 := 9
/-- Line feed. -/
abbrev lf : UInt8 := 10
/-- Carriage return. -/
abbrev cr : UInt8 := 13

/-- `PATH_MAX`. -/
abbrev pathMax : Nat := 4096

/-- A NUL-terminated string, stored without its terminator. -/
structure CStr where
  /-- The bytes before the terminator. -/
  bytes : Bytes
  /-- The first NUL is the terminator. -/
  nulFree : 0 ∉ bytes
  deriving DecidableEq

namespace CStr

@[ext]
theorem ext {left right : CStr} (same : left.bytes = right.bytes) : left = right := by
  cases left
  cases right
  simp_all

/-- The empty string. -/
def empty : CStr := ⟨[], by simp⟩

/-- The string a `char *` denotes: the bytes before the first NUL. -/
def ofBytes (bytes : Bytes) : CStr :=
  ⟨bytes.takeWhile (· ≠ 0), fun member => by simpa using List.mem_takeWhile_imp member⟩

/-- Reading NUL-free bytes as a string loses nothing. -/
@[simp]
theorem ofBytes_bytes (text : CStr) : ofBytes text.bytes = text := by
  apply ext
  have clean : ∀ byte ∈ text.bytes, (decide (byte ≠ 0)) = true := by
    intro byte member
    simp only [decide_eq_true_eq]
    rintro rfl
    exact text.nulFree member
  simpa [ofBytes] using List.takeWhile_eq_self_iff.mpr clean

/-- Bytes without a terminator are a whole string. -/
theorem bytes_ofBytes {bytes : Bytes} (clean : 0 ∉ bytes) : (ofBytes bytes).bytes = bytes := by
  have same := ofBytes_bytes ⟨bytes, clean⟩
  exact congrArg CStr.bytes same

/-- Concatenation of strings, as consecutive `dynamic_buffer_append_str` calls build it. -/
def append (left right : CStr) : CStr :=
  ⟨left.bytes ++ right.bytes, by simp [left.nulFree, right.nulFree]⟩

instance : Append CStr := ⟨append⟩

@[simp]
theorem bytes_append (left right : CStr) : (left ++ right).bytes = left.bytes ++ right.bytes := rfl

/-- The prefix test of `strncmp(text, start, strlen(start)) == 0`. -/
def startsWith (text start : CStr) : Bool := start.bytes.isPrefixOf text.bytes

end CStr

end StreamPipeline
