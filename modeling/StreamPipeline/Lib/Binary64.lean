import Mathlib

/-!
# Double precision numbers

A finite double is the rational it denotes, so both zeros are one value. An operation rounds its
exact result to the nearest double, ties to the even significand, and overflows to an infinity.
-/

namespace StreamPipeline

/-- A double of the 64-bit format. -/
inductive Binary64 where
  /-- A finite number. -/
  | finite (value : Rat)
  /-- An infinity, with its sign. -/
  | infinite (negative : Bool)
  /-- Not a number. -/
  | nan
  deriving DecidableEq

namespace Binary64

/-- The nearest integer, the even one of two. -/
def roundEven (exact : Rat) : Int :=
  let below := ⌊exact⌋
  if exact - below < 1 / 2 then below
  else if 1 / 2 < exact - below then below + 1
  else below + below % 2

/-- The distance of neighbouring doubles at a number, `2 ^ -1074` where they become denormal. -/
def spacing (exact : Rat) : Rat := 2 ^ max (Int.log 2 |exact| - 52) (-1074)

/-- The nearest multiple of the spacing. -/
def onGrid (exact : Rat) : Rat := roundEven (exact / spacing exact) * spacing exact

/-- The double an exact result is rounded to. -/
def nearest (exact : Rat) : Binary64 :=
  if 2 ^ 1024 ≤ |onGrid exact| then .infinite (exact < 0) else .finite (onGrid exact)

/-- `+`. -/
def add : Binary64 → Binary64 → Binary64
  | .finite left, .finite right => nearest (left + right)
  | .infinite left, .infinite right => if left = right then .infinite left else .nan
  | .infinite left, .finite _ => .infinite left
  | .finite _, .infinite right => .infinite right
  | _, _ => .nan

/-- `<`, which holds of no number that is none. -/
def lt : Binary64 → Binary64 → Bool
  | .finite left, .finite right => left < right
  | .infinite left, .infinite right => left && !right
  | .infinite left, .finite _ => left
  | .finite _, .infinite right => !right
  | _, _ => false

/-- `*` by a positive finite factor. -/
def scale (factor : Rat) : Binary64 → Binary64
  | .finite value => nearest (value * factor)
  | .infinite negative => .infinite negative
  | .nan => .nan

/-- The exact quotient by a count, before it is rounded. -/
def quotient (count : Nat) : Binary64 → Binary64
  | .finite value => .finite (value / count)
  | other => other

/-- The conversion to `int64_t`, which drops the fraction; none where it is undefined. -/
def toInt64 : Binary64 → Option Int64
  | .finite value =>
    let whole := value.num.tdiv value.den
    if -2 ^ 63 ≤ whole ∧ whole < 2 ^ 63 then some (.ofInt whole) else none
  | _ => none

/-- An integer is its own nearest one. -/
@[simp]
theorem roundEven_intCast (value : Int) : roundEven value = value := by
  simp [roundEven]

/-- The rounded number is one of the two integers around the exact one. -/
theorem roundEven_bounds (exact : Rat) :
    ⌊exact⌋ ≤ roundEven exact ∧ roundEven exact ≤ ⌊exact⌋ + 1 := by
  have parity := Int.emod_two_eq_zero_or_one ⌊exact⌋
  simp only [roundEven]
  split_ifs <;> omega

/-- Rounding keeps the order. -/
theorem roundEven_mono {left right : Rat} (ordered : left ≤ right) :
    roundEven left ≤ roundEven right := by
  have floors : ⌊left⌋ ≤ ⌊right⌋ := Int.floor_le_floor ordered
  rcases Int.lt_or_eq_of_le floors with apart | same
  · have upper := (roundEven_bounds left).2
    have lower := (roundEven_bounds right).1
    omega
  · have parity := Int.emod_two_eq_zero_or_one ⌊right⌋
    simp only [roundEven, same]
    split_ifs <;> first | omega | (exfalso; linarith)

/-- Neighbouring doubles are apart. -/
theorem spacing_pos (exact : Rat) : 0 < spacing exact := by
  apply zpow_pos
  norm_num

/-- A multiple of the spacing is a double. -/
theorem onGrid_multiple {exact : Rat} (steps : Int) (multiple : exact = steps * spacing exact) :
    onGrid exact = exact := by
  have ratio : exact / spacing exact = steps := by
    rw [div_eq_iff (spacing_pos exact).ne']
    exact multiple
  rw [onGrid, ratio, roundEven_intCast, ← multiple]

/-- A multiple of the spacing bounds the rounded number where it bounds the exact one. -/
theorem onGrid_le {exact : Rat} (steps : Int) (bound : exact ≤ steps * spacing exact) :
    onGrid exact ≤ steps * spacing exact := by
  have ratio : exact / spacing exact ≤ steps := by
    rw [div_le_iff₀ (spacing_pos exact)]
    exact bound
  have rounded := roundEven_mono ratio
  rw [roundEven_intCast] at rounded
  exact mul_le_mul_of_nonneg_right (by exact_mod_cast rounded) (spacing_pos exact).le

/-- The lower bound likewise. -/
theorem le_onGrid {exact : Rat} (steps : Int) (bound : steps * spacing exact ≤ exact) :
    steps * spacing exact ≤ onGrid exact := by
  have ratio : (steps : Rat) ≤ exact / spacing exact := by
    rw [le_div_iff₀ (spacing_pos exact)]
    exact bound
  have rounded := roundEven_mono ratio
  rw [roundEven_intCast] at rounded
  exact mul_le_mul_of_nonneg_right (by exact_mod_cast rounded) (spacing_pos exact).le

/-- A power of two below its own binade is a multiple of the spacing there. -/
theorem zpow_eq_mul_spacing (exact : Rat) (exponent : Int)
    (coarse : max (Int.log 2 |exact| - 52) (-1074) ≤ exponent) :
    ∃ steps : Int, (2 : Rat) ^ exponent = steps * spacing exact := by
  obtain ⟨gap, apart⟩ := Int.le.dest coarse
  refine ⟨2 ^ gap, ?_⟩
  rw [← apart, spacing, zpow_add₀ (by norm_num), zpow_natCast]
  push_cast
  ring

/-- Rounding nonnegative numbers to doubles keeps the order. -/
theorem onGrid_mono {left right : Rat} (nonneg : 0 ≤ left) (ordered : left ≤ right) :
    onGrid left ≤ onGrid right := by
  rcases eq_or_lt_of_le nonneg with rfl | positive
  · have zero : onGrid 0 = 0 := onGrid_multiple 0 (by simp)
    have bound := le_onGrid 0 (by simpa using ordered)
    rw [zero]
    simpa using bound
  have rightPositive : 0 < right := lt_of_lt_of_le positive ordered
  have logs : Int.log 2 |left| ≤ Int.log 2 |right| := by
    rw [abs_of_pos positive, abs_of_pos rightPositive]
    exact Int.log_mono_right positive ordered
  by_cases same : max (Int.log 2 |left| - 52) (-1074) = max (Int.log 2 |right| - 52) (-1074)
  · have spacings : spacing left = spacing right := by
      rw [spacing, spacing, same]
    rw [onGrid, onGrid, spacings]
    have ratio : left / spacing right ≤ right / spacing right :=
      div_le_div_of_nonneg_right ordered (spacing_pos right).le
    exact mul_le_mul_of_nonneg_right (by exact_mod_cast roundEven_mono ratio)
      (spacing_pos right).le
  -- The power of two where the binade of the greater number starts is between the two.
  · have apart : Int.log 2 |left| < Int.log 2 |right| := by omega
    obtain ⟨fine, atLeft⟩ := zpow_eq_mul_spacing left (Int.log 2 |right|) (by omega)
    obtain ⟨coarse, atRight⟩ := zpow_eq_mul_spacing right (Int.log 2 |right|) (by omega)
    have below : left ≤ 2 ^ Int.log 2 |right| := by
      have next := Int.lt_zpow_succ_log_self (b := 2) (by norm_num) |left|
      rw [abs_of_pos positive] at next apart
      have step : (2 : Rat) ^ (Int.log 2 left + 1) ≤ 2 ^ Int.log 2 |right| :=
        zpow_le_zpow_right₀ (by norm_num) (by omega)
      exact le_trans next.le (by exact_mod_cast step)
    have above : (2 : Rat) ^ Int.log 2 |right| ≤ right := by
      have first := Int.zpow_log_le_self (b := 2) (by norm_num) rightPositive
      rw [abs_of_pos rightPositive]
      exact_mod_cast first
    calc
      onGrid left ≤ 2 ^ Int.log 2 |right| := by
        rw [atLeft] at below ⊢
        exact onGrid_le fine below
      _ ≤ onGrid right := by
        rw [atRight] at above ⊢
        exact le_onGrid coarse above

/-- The spacing of a binade of whole numbers. -/
theorem spacing_of_binade {exact : Rat} (exponent : Nat) (lower : 2 ^ exponent ≤ exact)
    (upper : exact < 2 ^ (exponent + 1)) (whole : 52 ≤ exponent) :
    spacing exact = 2 ^ (exponent - 52) := by
  have positive : 0 < exact := lt_of_lt_of_le (by positivity) lower
  have atLeast : (exponent : Int) ≤ Int.log 2 exact := by
    rw [← Int.zpow_le_iff_le_log (by norm_num) positive]
    exact_mod_cast lower
  have below : Int.log 2 exact < (exponent : Int) + 1 := by
    rw [← Int.lt_zpow_iff_log_lt (by norm_num) positive]
    exact_mod_cast upper
  have same : max (Int.log 2 |exact| - 52) (-1074) = ((exponent - 52 : Nat) : Int) := by
    rw [abs_of_pos positive]
    omega
  rw [spacing, same, zpow_natCast]

/-- An integer of at most 53 bits is a double. -/
theorem onGrid_intCast {value : Int} (small : |value| < 2 ^ 53) : onGrid value = value := by
  by_cases zero : value = 0
  · exact onGrid_multiple 0 (by simp [zero])
  have positive : 0 < |(value : Rat)| := abs_pos.mpr (by exact_mod_cast zero)
  have bound : Int.log 2 |(value : Rat)| < 53 := by
    rw [← Int.lt_zpow_iff_log_lt (by norm_num) positive]
    exact_mod_cast small
  obtain ⟨steps, one⟩ := zpow_eq_mul_spacing value 0 (by omega)
  apply onGrid_multiple (value * steps)
  rw [zpow_zero] at one
  rw [Int.cast_mul, mul_assoc, ← one, mul_one]

/-- Such an integer is not rounded. -/
theorem nearest_intCast {value : Int} (small : |value| < 2 ^ 53) :
    nearest value = .finite value := by
  have finite : ¬ (2 : Rat) ^ 1024 ≤ |(value : Rat)| := by
    have bound : |(value : Rat)| < 2 ^ 53 := by exact_mod_cast small
    have far : (2 : Rat) ^ 53 ≤ 2 ^ 1024 := pow_le_pow_right₀ (by norm_num) (by norm_num)
    exact not_le.mpr (lt_of_lt_of_le bound far)
  rw [nearest, onGrid_intCast small, if_neg finite]

/-- The sum of integers is exact while it has at most 53 bits. -/
theorem add_intCast {left right : Int} (small : |left + right| < 2 ^ 53) :
    add (.finite left) (.finite right) = .finite ((left + right : Int) : Rat) := by
  rw [add, ← Int.cast_add, nearest_intCast small]

/-- A number that is rounded to the word's end or beyond has no integer in the word. -/
theorem toInt64_nearest_large {exact : Rat} (large : 2 ^ 63 ≤ onGrid exact) :
    (nearest exact).toInt64 = none := by
  rw [nearest]
  split
  · rfl
  · have nonneg : 0 ≤ onGrid exact := le_trans (by norm_num) large
    have whole : (2 : Int) ^ 63 ≤ (onGrid exact).num.tdiv (onGrid exact).den := by
      rw [Int.tdiv_eq_ediv_of_nonneg (Rat.num_nonneg.mpr nonneg), ← Rat.floor_def', Int.le_floor]
      exact_mod_cast large
    rw [toInt64, if_neg (by omega)]

/-- A number that is rounded inside the positive words stays finite. -/
theorem nearest_eq_finite {exact : Rat} (nonneg : 0 ≤ onGrid exact)
    (small : onGrid exact < 2 ^ 63) : nearest exact = .finite (onGrid exact) := by
  have far : (2 : Rat) ^ 63 ≤ 2 ^ 1024 := pow_le_pow_right₀ (by norm_num) (by norm_num)
  have finite : ¬(2 : Rat) ^ 1024 ≤ |onGrid exact| := by
    rw [abs_of_nonneg nonneg, not_le]
    exact lt_of_lt_of_le small far
  rw [nearest, if_neg finite]

/-- It is converted to a positive word unless it is less than one. -/
theorem toInt64_nearest_small {exact : Rat} (positive : 1 ≤ onGrid exact)
    (small : onGrid exact < 2 ^ 63) : ∃ word, (nearest exact).toInt64 = some word ∧ 0 < word := by
  have nonneg : 0 ≤ onGrid exact := le_trans (by norm_num) positive
  have lower : (1 : Int) ≤ (onGrid exact).num.tdiv (onGrid exact).den := by
    rw [Int.tdiv_eq_ediv_of_nonneg (Rat.num_nonneg.mpr nonneg), ← Rat.floor_def', Int.le_floor]
    exact_mod_cast positive
  have upper : (onGrid exact).num.tdiv (onGrid exact).den < (2 : Int) ^ 63 := by
    rw [Int.tdiv_eq_ediv_of_nonneg (Rat.num_nonneg.mpr nonneg), ← Rat.floor_def', Int.floor_lt]
    exact_mod_cast small
  rw [nearest_eq_finite nonneg small, toInt64, if_pos (by omega)]
  refine ⟨_, rfl, ?_⟩
  rw [Int64.lt_iff_toInt_lt, Int64.toInt_zero, Int64.toInt_ofInt_of_le (by omega) (by omega)]
  omega

end Binary64

end StreamPipeline
