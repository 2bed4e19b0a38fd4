import StreamPipeline.Lib.Strtod
import StreamPipeline.Store.Expiry

/-!
# Numeric options

The dispatcher checks the texts of its numeric options with `strtoul` and passes them on as they
are. `clip_store` reads the lifetime with `strtol`, `stream_merge` the seconds with `atof`. The
three agree on small numbers without a minus sign.
-/

namespace StreamPipeline.Dispatch

open Store (parseTtl parseTtl_spelled)

/-- `valid_uint_string`. -/
def validUintString (value : CStr) (allowZero : Bool) : Bool :=
  if value.bytes = [] then false
  else
    match strtoul value.bytes with
    | none => false
    | some (n, failed, rest) => if failed ∨ rest ≠ [] then false else allowZero || 0 < n

/-- `pd_config_t` before the applet paths are resolved. -/
structure PdConfig where
  /-- `session_id`. -/
  sessionId : Option CStr
  /-- `src_dir`. -/
  srcDir : Option CStr
  /-- `db_path`. -/
  dbPath : Option CStr
  /-- `ttl`. -/
  ttl : CStr := .ofBytes (ascii "300")
  /-- `clip_secs`. -/
  clipSecs : CStr := .ofBytes (ascii "5")
  /-- `idle_secs`. -/
  idleSecs : CStr := .ofBytes (ascii "2")

/-- Why `pd_config_validate` refuses a configuration. -/
inductive Refusal where
  /-- `session_id, src_dir, and db_path are required`. -/
  | required
  /-- `src_dir is not a directory`. -/
  | notDirectory
  /-- `invalid --ttl value`. -/
  | ttl
  /-- `invalid --clip-secs value`. -/
  | clipSecs
  /-- `invalid --idle-secs value`. -/
  | idleSecs
  /-- `one or more applet binaries are not executable`. -/
  | notExecutable
  deriving DecidableEq

/-- `pd_config_validate`, with what `stat` and `access` find; none is its `0`. -/
def pdConfigValidate (isDirectory : CStr → Bool) (executable : Bool) (cfg : PdConfig) :
    Option Refusal :=
  let given := fun text : Option CStr => text.any fun text => text.bytes ≠ []
  if !(given cfg.sessionId && given cfg.srcDir && given cfg.dbPath) then some .required
  else if !cfg.srcDir.any isDirectory then some .notDirectory
  else if !validUintString cfg.ttl true then some .ttl
  else if !validUintString cfg.clipSecs false then some .clipSecs
  else if !validUintString cfg.idleSecs false then some .idleSecs
  else if !executable then some .notExecutable
  else none

/-- `(int64_t)(atof(optarg) * 1000.0)` of `stream_merge_main`; none where the conversion is
undefined. -/
def optionMs (optarg : CStr) : Option Int64 := ((atof optarg).scale 1000).toInt64

/-- The defaults pass their checks. -/
theorem defaults_valid (sessionId srcDir dbPath : Option CStr) :
    let cfg : PdConfig := { sessionId, srcDir, dbPath }
    validUintString cfg.ttl true = true ∧ validUintString cfg.clipSecs false = true ∧
      validUintString cfg.idleSecs false = true := by
  show validUintString (.ofBytes (ascii "300")) true = true ∧
    validUintString (.ofBytes (ascii "5")) false = true ∧
    validUintString (.ofBytes (ascii "2")) false = true
  decide

/-- What is known of a configuration that is not refused. -/
structure Accepted (isDirectory : CStr → Bool) (executable : Bool) (cfg : PdConfig) : Prop where
  sessionId : ∃ text, cfg.sessionId = some text ∧ text.bytes ≠ []
  srcDir : ∃ text, cfg.srcDir = some text ∧ text.bytes ≠ [] ∧ isDirectory text = true
  dbPath : ∃ text, cfg.dbPath = some text ∧ text.bytes ≠ []
  ttl : validUintString cfg.ttl true = true
  clipSecs : validUintString cfg.clipSecs false = true
  idleSecs : validUintString cfg.idleSecs false = true
  executable : executable = true

/-- A configuration is accepted when it passes every check. -/
theorem accepted_iff {isDirectory : CStr → Bool} {executable : Bool} {cfg : PdConfig} :
    pdConfigValidate isDirectory executable cfg = none ↔ Accepted isDirectory executable cfg := by
  obtain ⟨sessionId, srcDir, dbPath, ttl, clipSecs, idleSecs⟩ := cfg
  constructor
  · intro passed
    simp only [pdConfigValidate] at passed
    split_ifs at passed with given directory lifetime clip idle found
    simp only [Bool.not_eq_true', Bool.not_eq_false, Bool.and_eq_true, Option.any_eq_true,
      decide_eq_true_eq] at given directory lifetime clip idle found
    obtain ⟨⟨session, source⟩, database⟩ := given
    obtain ⟨text, rfl, filled⟩ := source
    obtain ⟨same, shown, isDir⟩ := directory
    obtain rfl := Option.some.inj shown
    exact ⟨session, ⟨text, rfl, filled, isDir⟩, database, lifetime, clip, idle, found⟩
  · rintro ⟨⟨session, rfl, named⟩, ⟨source, rfl, filled, isDir⟩, ⟨database, rfl, stored⟩, lifetime,
      clip, idle, found⟩
    simp only at lifetime clip idle
    simp [pdConfigValidate, named, filled, stored, isDir, lifetime, clip, idle, found]

/-- The word of a magnitude is positive when the magnitude is. -/
theorem word_pos_iff {magnitude : Nat} (small : magnitude < 2 ^ 64) (negative : Bool) :
    0 < (if negative then -UInt64.ofNat magnitude else .ofNat magnitude) ↔ magnitude ≠ 0 := by
  have word : (UInt64.ofNat magnitude).toNat = magnitude := UInt64.toNat_ofNat_of_lt' small
  cases negative with
  | true =>
    rw [if_pos rfl, UInt64.lt_iff_toNat_lt, UInt64.toNat_neg, word, UInt64.toNat_zero]
    rw [show UInt64.size = 2 ^ 64 from rfl]
    omega
  | false =>
    rw [if_neg (by decide), UInt64.lt_iff_toNat_lt, word]
    exact Nat.pos_iff_ne_zero

/-- A text is accepted when it spells an integer whose magnitude fits the word, and a zero is
allowed or the integer is none. -/
theorem validUintString_iff (text : CStr) (allowZero : Bool) :
    validUintString text allowZero = true ↔
      ∃ value, spelled text.bytes = some value ∧ value.natAbs < 2 ^ 64 ∧
        (allowZero = true ∨ value ≠ 0) := by
  cases spells : spelled text.bytes with
  | none =>
    have refused : validUintString text allowZero = false := by
      rw [validUintString]
      split
      · rfl
      · cases read : strtoul text.bytes with
        | none => rfl
        | some answer =>
          obtain ⟨n, failed, rest⟩ := answer
          have stops : rest ≠ [] := by
            intro done
            rw [done] at read
            have some := spelled_of_strtoul read
            rw [spells] at some
            contradiction
          simp [stops]
    simp [refused]
  | some value =>
    obtain ⟨negative, run, shape, filled, clean, same⟩ := spelled_eq_some spells
    have full : text.bytes ≠ [] := by
      intro empty
      rw [empty] at shape
      exact filled (Prod.mk.inj shape).2.symm
    rw [validUintString, if_neg full, strtoul_spelled shape filled clean]
    have magnitude : value.natAbs = readDigits run 0 := by
      rw [same]
      split <;> omega
    have zero : readDigits run 0 ≠ 0 ↔ value ≠ 0 := by omega
    simp only [Option.some.injEq, exists_eq_left', magnitude]
    by_cases large : 2 ^ 64 ≤ readDigits run 0
    · have past : ¬readDigits run 0 < 2 ^ 64 := Nat.not_lt.mpr large
      rw [if_pos large]
      simp only [true_or, if_true, past, false_and]
      decide
    · have positive := word_pos_iff (Nat.lt_of_not_le large) negative
      rw [if_neg large]
      simp only [Bool.false_eq_true, ne_eq, not_true_eq_false, or_self, if_false,
        Bool.or_eq_true, decide_eq_true_eq, positive, Nat.lt_of_not_le large, true_and]
      rw [← ne_eq, zero]

/-- `stream_merge` reads it as the nearest double. -/
theorem atof_spelled {text : CStr} {value : Int} (spells : spelled text.bytes = some value) :
    atof text = .nearest value := by
  obtain ⟨negative, run, shape, filled, clean, same⟩ := spelled_eq_some spells
  rw [atof, strtod_integer shape filled clean, Option.getD_some, same]

/-- `strtoul` reads an integer of an unsigned word as itself. -/
theorem strtoul_nonneg {text : Bytes} {value : Int} (spells : spelled text = some value)
    (nonneg : 0 ≤ value) (small : value < 2 ^ 64) :
    ∃ n, strtoul text = some (n, false, []) ∧ (n.toNat : Int) = value := by
  obtain ⟨negative, run, shape, filled, clean, same⟩ := spelled_eq_some spells
  have fits : ¬2 ^ 64 ≤ readDigits run 0 := by
    intro large
    cases negative <;> simp at same <;> omega
  rw [strtoul_spelled shape filled clean, if_neg fits]
  have word : (UInt64.ofNat (readDigits run 0)).toNat = readDigits run 0 :=
    UInt64.toNat_ofNat_of_lt' (Nat.lt_of_not_le fits)
  refine ⟨_, rfl, ?_⟩
  cases negative with
  | true =>
    rw [if_pos rfl] at same ⊢
    have zero : readDigits run 0 = 0 := by omega
    rw [same, zero]
    rfl
  | false =>
    rw [if_neg (by decide)] at same ⊢
    rw [same, word]

/-- Both programs read an accepted `--ttl` as the same integer. -/
def TtlAgrees (text : CStr) : Prop :=
  validUintString text true = true →
    ∃ n ttl, strtoul text.bytes = some (n, false, []) ∧ parseTtl text = some ttl ∧
      ttl.toInt = n.toNat

/-- An accepted `--clip-secs` or `--idle-secs` spells a positive integer and gives a positive
number of milliseconds. -/
def SecsPositive (text : CStr) : Prop :=
  validUintString text false = true →
    (∃ value, spelled text.bytes = some value ∧ 0 < value) ∧ ∃ ms, optionMs text = some ms ∧ 0 < ms

/-- A lifetime is read alike unless it spells a negative integer that `strtoul` wraps or one that
only an unsigned word holds. -/
theorem ttlAgrees_iff (text : CStr) :
    TtlAgrees text ↔ ∀ value, spelled text.bytes = some value →
      ¬(-2 ^ 64 < value ∧ value < 0) ∧ ¬(2 ^ 63 ≤ value ∧ value < 2 ^ 64) := by
  rw [TtlAgrees, validUintString_iff]
  constructor
  · intro agrees value spells
    constructor
    · rintro ⟨above, below⟩
      obtain ⟨n, ttl, -, parsed, -⟩ := agrees ⟨value, spells, by omega, .inl rfl⟩
      rw [parseTtl_spelled spells, if_pos below] at parsed
      contradiction
    · rintro ⟨large, small⟩
      obtain ⟨n, ttl, read, parsed, same⟩ := agrees ⟨value, spells, by omega, .inl rfl⟩
      obtain ⟨word, spelledWord, exact⟩ := strtoul_nonneg spells (by omega) small
      rw [read, Option.some.injEq, Prod.mk.injEq] at spelledWord
      rw [parseTtl_spelled spells, if_neg (by omega), Option.some.injEq] at parsed
      rw [← parsed, toInt_saturate, spelledWord.1] at same
      omega
  · rintro bounded ⟨value, spells, small, -⟩
    have range := bounded value spells
    obtain ⟨n, read, exact⟩ := strtoul_nonneg spells (by omega) (by omega)
    refine ⟨n, saturate value, read, ?_, ?_⟩
    · rw [parseTtl_spelled spells, if_neg (by omega)]
    · rw [toInt_saturate]
      omega

section Milliseconds

open Binary64 (onGrid nearest spacing)

/-- The doubles of the seconds whose milliseconds fit the word. -/
theorem seconds_range {value : Int} (positive : 0 < value) (small : value ≤ 9223372036854774) :
    1 ≤ onGrid value ∧ onGrid value ≤ 9223372036854774 := by
  have one : onGrid ((1 : Int) : Rat) = (1 : Int) := Binary64.onGrid_intCast (by norm_num)
  have even : spacing 9223372036854774 = 2 ^ 1 :=
    Binary64.spacing_of_binade 53 (by norm_num) (by norm_num) (by norm_num)
  have last : onGrid 9223372036854774 = 9223372036854774 :=
    Binary64.onGrid_multiple 4611686018427387 (by rw [even]; norm_num)
  have atLeast : (1 : Rat) ≤ value := by exact_mod_cast positive
  have atMost : (value : Rat) ≤ 9223372036854774 := by exact_mod_cast small
  constructor
  · have order := Binary64.onGrid_mono (by norm_num) atLeast
    rw [Int.cast_one] at one
    rwa [one] at order
  · have order := Binary64.onGrid_mono (by linarith) atMost
    rwa [last] at order

/-- Up to the last seconds whose milliseconds fit the word, they do. -/
theorem milliseconds_small {value : Int} (positive : 0 < value)
    (small : value ≤ 9223372036854774) :
    1 ≤ onGrid (onGrid value * 1000) ∧ onGrid (onGrid value * 1000) < 2 ^ 63 := by
  have range := seconds_range positive small
  constructor
  · have thousand : onGrid ((1000 : Int) : Rat) = (1000 : Int) :=
      Binary64.onGrid_intCast (by norm_num)
    have same : onGrid 1000 = 1000 := by exact_mod_cast thousand
    have order : onGrid 1000 ≤ onGrid (onGrid value * 1000) :=
      Binary64.onGrid_mono (by norm_num) (by linarith)
    linarith
  · have step : spacing 9223372036854774000 = 2 ^ 10 :=
      Binary64.spacing_of_binade 62 (by norm_num) (by norm_num) (by norm_num)
    have bound : onGrid 9223372036854774000 ≤ ((2 ^ 53 - 1 : Int) : Rat) * 2 ^ 10 := by
      rw [← step]
      apply Binary64.onGrid_le
      rw [step]
      norm_num
    have order : onGrid (onGrid value * 1000) ≤ onGrid 9223372036854774000 :=
      Binary64.onGrid_mono (by linarith) (by linarith)
    norm_num at bound ⊢
    linarith

/-- The next seconds are half way between two doubles and go up to the even one. -/
theorem onGrid_next : onGrid 9223372036854775 = 9223372036854776 := by
  have even : spacing 9223372036854775 = 2 ^ 1 :=
    Binary64.spacing_of_binade 53 (by norm_num) (by norm_num) (by norm_num)
  have floor : ⌊(9223372036854775 / 2 ^ 1 : Rat)⌋ = 4611686018427387 := by
    rw [Int.floor_eq_iff]
    norm_num
  have rounded : Binary64.roundEven (9223372036854775 / 2 ^ 1) = 4611686018427388 := by
    rw [Binary64.roundEven, floor]
    norm_num
  rw [onGrid, even, rounded]
  norm_num

/-- Behind the last seconds whose milliseconds fit the word, they do not. -/
theorem milliseconds_large {value : Int} (large : 9223372036854774 < value) :
    2 ^ 63 ≤ onGrid (onGrid value * 1000) := by
  have atLeast : (9223372036854775 : Rat) ≤ value := by exact_mod_cast large
  have lower := Binary64.onGrid_mono (by norm_num) atLeast
  rw [onGrid_next] at lower
  have step : spacing 9223372036854776000 = 2 ^ 11 :=
    Binary64.spacing_of_binade 63 (by norm_num) (by norm_num) (by norm_num)
  have bound : ((2 ^ 52 : Int) : Rat) * 2 ^ 11 ≤ onGrid 9223372036854776000 := by
    rw [← step]
    apply Binary64.le_onGrid
    rw [step]
    norm_num
  have order : onGrid 9223372036854776000 ≤ onGrid (onGrid value * 1000) :=
    Binary64.onGrid_mono (by norm_num) (by linarith)
  norm_num at bound ⊢
  linarith

/-- The milliseconds of seconds that fit the word are positive. -/
theorem optionMs_small {text : CStr} {value : Int} (spells : spelled text.bytes = some value)
    (positive : 0 < value) (small : value ≤ 9223372036854774) :
    ∃ ms, optionMs text = some ms ∧ 0 < ms := by
  have seconds := seconds_range positive small
  have finite : nearest value = .finite (onGrid value) :=
    Binary64.nearest_eq_finite (by linarith) (by linarith)
  have range := milliseconds_small positive small
  have ms := Binary64.toInt64_nearest_small range.1 range.2
  rwa [optionMs, atof_spelled spells, finite]

/-- The milliseconds of more seconds are no word. -/
theorem optionMs_large {text : CStr} {value : Int} (spells : spelled text.bytes = some value)
    (large : 9223372036854774 < value) : optionMs text = none := by
  have past := Binary64.toInt64_nearest_large (milliseconds_large large)
  rw [optionMs, atof_spelled spells, nearest]
  split
  · rfl
  · exact past

end Milliseconds

/-- Seconds are positive unless they spell a negative integer that `strtoul` wraps or one whose
milliseconds leave the word. -/
theorem secsPositive_iff (text : CStr) :
    SecsPositive text ↔ ∀ value, spelled text.bytes = some value →
      ¬(-2 ^ 64 < value ∧ value < 0) ∧ ¬(9223372036854774 < value ∧ value < 2 ^ 64) := by
  rw [SecsPositive, validUintString_iff]
  constructor
  · intro sound value spells
    constructor
    · rintro ⟨above, below⟩
      obtain ⟨⟨other, same, positive⟩, -⟩ := sound ⟨value, spells, by omega, .inr (by omega)⟩
      rw [spells, Option.some.injEq] at same
      omega
    · rintro ⟨large, small⟩
      obtain ⟨-, ms, read, -⟩ := sound ⟨value, spells, by omega, .inr (by omega)⟩
      rw [optionMs_large spells large] at read
      contradiction
  · rintro bounded ⟨value, spells, small, nonzero⟩
    have range := bounded value spells
    have apart : value ≠ 0 := nonzero.resolve_left (by decide)
    exact ⟨⟨value, spells, by omega⟩, optionMs_small spells (by omega) (by omega)⟩

/-- An accepted lifetime is read alike when a signed word holds it. -/
theorem lifetime_of_valid {text : CStr} (valid : validUintString text true = true) :
    (∃ n ttl, strtoul text.bytes = some (n, false, []) ∧ parseTtl text = some ttl ∧
        ttl.toInt = n.toNat) ↔
      ∃ value, spelled text.bytes = some value ∧ 0 ≤ value ∧ value < 2 ^ 63 := by
  obtain ⟨value, spells, small, -⟩ := (validUintString_iff text true).mp valid
  have agrees := ttlAgrees_iff text
  rw [TtlAgrees, imp_iff_right valid] at agrees
  rw [agrees, spells]
  clear agrees
  simp only [Option.some.injEq, forall_eq', exists_eq_left']
  omega

/-- Accepted seconds are positive milliseconds when they are positive and few enough. -/
theorem seconds_of_valid {text : CStr} (valid : validUintString text false = true) :
    ((∃ value, spelled text.bytes = some value ∧ 0 < value) ∧
        ∃ ms, optionMs text = some ms ∧ 0 < ms) ↔
      ∃ value, spelled text.bytes = some value ∧ 0 < value ∧ value ≤ 9223372036854774 := by
  obtain ⟨value, spells, small, nonzero⟩ := (validUintString_iff text false).mp valid
  have apart : value ≠ 0 := nonzero.resolve_left (by decide)
  have positive := secsPositive_iff text
  rw [SecsPositive, imp_iff_right valid] at positive
  rw [positive, spells]
  clear positive
  simp only [Option.some.injEq, forall_eq', exists_eq_left']
  omega

/-- The dispatcher and the applets agree on the text of an option exactly when it spells no
negative integer that `strtoul` wraps and, among the other integers of an unsigned word, one
that a signed word holds, as a lifetime or in milliseconds. -/
theorem options_agree_iff (text : CStr) :
    (TtlAgrees text ↔ ∀ value, spelled text.bytes = some value →
      ¬(-2 ^ 64 < value ∧ value < 0) ∧ ¬(2 ^ 63 ≤ value ∧ value < 2 ^ 64)) ∧
    (SecsPositive text ↔ ∀ value, spelled text.bytes = some value →
      ¬(-2 ^ 64 < value ∧ value < 0) ∧ ¬(9223372036854774 < value ∧ value < 2 ^ 64)) :=
  ⟨ttlAgrees_iff text, secsPositive_iff text⟩

/-- Five seconds or less with a minus sign pass the checks of the dispatcher, and so does a
lifetime that only an unsigned word holds. -/
theorem minus_accepted :
    ¬TtlAgrees (.ofBytes (ascii "-5")) ∧ ¬SecsPositive (.ofBytes (ascii "-5")) ∧
      ¬TtlAgrees (.ofBytes (ascii "9223372036854775808")) := by
  have five : spelled (CStr.ofBytes (ascii "-5")).bytes = some (-5) := by decide
  have unsigned : spelled (CStr.ofBytes (ascii "9223372036854775808")).bytes =
      some 9223372036854775808 := by decide +kernel
  refine ⟨?_, ?_, ?_⟩
  · intro agrees
    exact ((ttlAgrees_iff _).mp agrees _ five).1 (by omega)
  · intro positive
    exact ((secsPositive_iff _).mp positive _ five).1 (by omega)
  · intro agrees
    exact ((ttlAgrees_iff _).mp agrees _ unsigned).2 (by omega)

end StreamPipeline.Dispatch
