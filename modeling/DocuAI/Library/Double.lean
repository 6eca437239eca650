import Mathlib.Algebra.Order.Field.Power
import Mathlib.Algebra.Order.Floor.Semiring
import Mathlib.Algebra.Ring.Int.Parity
import Mathlib.Data.Int.Log
import Mathlib.Data.Rat.Floor
import Mathlib.Tactic.FieldSimp
import Mathlib.Tactic.Linarith
import Mathlib.Tactic.NormNum
import Mathlib.Tactic.Positivity

/-!
# Double-precision numbers

The numbers of the format binary64, with an arithmetic that computes the exact result and rounds it
to the nearest of them, and of two that are equally near to the one with the even last digit.  The
sign of a zero is left out.
-/

namespace Double

/-! ### Rounding to an integer -/

/-- The integer nearest to a number, and of two the even one. -/
def roundEven (x : ℚ) : ℤ :=
  if x - ⌊x⌋ < 1 / 2 then ⌊x⌋
  else if 1 / 2 < x - ⌊x⌋ then ⌊x⌋ + 1
  else if Even ⌊x⌋ then ⌊x⌋ else ⌊x⌋ + 1

@[simp]
theorem roundEven_intCast (n : ℤ) :
  roundEven n = n
  := by simp [roundEven]

@[simp]
theorem roundEven_zero :
  roundEven 0 = 0
  := by simp [roundEven]

theorem roundEven_le (x : ℚ) :
  (roundEven x : ℚ) ≤ x + 1 / 2
  := by
  have hlower : (⌊x⌋ : ℚ) ≤ x := Int.floor_le x
  unfold roundEven
  split
  · linarith
  · split
    · push_cast
      linarith
    · split
      · linarith
      · push_cast
        linarith

theorem le_roundEven (x : ℚ) :
  x - 1 / 2 ≤ roundEven x
  := by
  have hupper : x < ⌊x⌋ + 1 := Int.lt_floor_add_one x
  unfold roundEven
  split
  · linarith
  · split
    · push_cast
      linarith
    · split
      · linarith
      · push_cast
        linarith

theorem even_roundEven {x : ℚ} (h : |roundEven x - x| = 1 / 2) :
  Even (roundEven x)
  := by
  have hlower : (⌊x⌋ : ℚ) ≤ x := Int.floor_le x
  have hupper : x < ⌊x⌋ + 1 := Int.lt_floor_add_one x
  unfold roundEven at h ⊢
  split
  · rename_i hnear
    rw [if_pos hnear, abs_of_nonpos (by linarith)] at h
    linarith
  · rename_i hfar
    rw [if_neg hfar] at h
    split
    · rename_i hnear
      rw [if_pos hnear] at h
      push_cast at h
      rw [abs_of_nonneg (by linarith)] at h
      linarith
    · split
      · assumption
      · rename_i hodd
        exact (Int.not_even_iff_odd.mp hodd).add_one

/-- A number is rounded to an even integer or beyond from half a unit below it on. -/
theorem le_roundEven_iff_of_even {k : ℤ} (hk : Even k) {x : ℚ} :
  k ≤ roundEven x ↔ (k : ℚ) - 1 / 2 ≤ x
  := by
  constructor
  · intro h
    have hle : (k : ℚ) ≤ roundEven x := by exact_mod_cast h
    have hbelow := roundEven_le x
    linarith
  · intro h
    by_contra hlt
    have hle : (roundEven x : ℚ) + 1 ≤ k := by exact_mod_cast not_le.mp hlt
    have habove := le_roundEven x
    have htie : |roundEven x - x| = 1 / 2 := by
      rw [abs_of_nonpos (by linarith)]
      linarith
    have hnext : (roundEven x : ℚ) + 1 = k := by linarith
    have hodd : Odd k := by
      rw [← (by exact_mod_cast hnext : roundEven x + 1 = k)]
      exact (even_roundEven htie).add_one
    exact Int.not_even_iff_odd.mpr hodd hk

/-- A number is rounded to an odd integer or beyond from more than half a unit below it on. -/
theorem le_roundEven_iff_of_odd {k : ℤ} (hk : Odd k) {x : ℚ} :
  k ≤ roundEven x ↔ (k : ℚ) - 1 / 2 < x
  := by
  constructor
  · intro h
    by_contra hge
    have hle : (k : ℚ) ≤ roundEven x := by exact_mod_cast h
    have hbelow := roundEven_le x
    have htie : |roundEven x - x| = 1 / 2 := by
      rw [abs_of_nonneg (by linarith)]
      linarith
    have hsame : (roundEven x : ℚ) = k := by linarith
    have heven : Even k := by
      rw [← (by exact_mod_cast hsame : roundEven x = k)]
      exact even_roundEven htie
    exact Int.not_even_iff_odd.mpr hk heven
  · intro h
    by_contra hlt
    have hle : (roundEven x : ℚ) + 1 ≤ k := by exact_mod_cast not_le.mp hlt
    have habove := le_roundEven x
    linarith

/-- The integer nearest to the square root of a number, and of two the even one. -/
def roundSqrt (x : ℚ) : ℕ :=
  let n := Nat.sqrt ⌊x⌋₊
  if x < ((n : ℚ) + 1 / 2) ^ 2 then n
  else if ((n : ℚ) + 1 / 2) ^ 2 < x then n + 1
  else if Even n then n else n + 1

theorem sqrt_floor_sq_le {x : ℚ} (hx : 0 ≤ x) :
  ((Nat.sqrt ⌊x⌋₊ : ℕ) : ℚ) ^ 2 ≤ x
  := by
  have hsq : ((Nat.sqrt ⌊x⌋₊ : ℕ) : ℚ) ^ 2 ≤ (⌊x⌋₊ : ℚ) := by
    exact_mod_cast Nat.sqrt_le' ⌊x⌋₊
  exact hsq.trans (Nat.floor_le hx)

theorem lt_sqrt_floor_add_one_sq (x : ℚ) :
  x < ((Nat.sqrt ⌊x⌋₊ : ℕ) + 1 : ℚ) ^ 2
  := by
  have hsq : (⌊x⌋₊ : ℚ) + 1 ≤ ((Nat.sqrt ⌊x⌋₊ : ℕ) + 1 : ℚ) ^ 2 := by
    exact_mod_cast Nat.lt_succ_sqrt' ⌊x⌋₊
  exact (Nat.lt_floor_add_one x).trans_le hsq

theorem sq_roundSqrt_le {x : ℚ} (hx : 0 ≤ x) (hne : roundSqrt x ≠ 0) :
  ((roundSqrt x : ℚ) - 1 / 2) ^ 2 ≤ x
  := by
  have hlower := sqrt_floor_sq_le hx
  have hn : (0 : ℚ) ≤ (Nat.sqrt ⌊x⌋₊ : ℕ) := Nat.cast_nonneg _
  unfold roundSqrt at hne ⊢
  simp only at hne ⊢
  split
  · rename_i hnear
    rw [if_pos hnear] at hne
    have hone : (1 : ℚ) ≤ (Nat.sqrt ⌊x⌋₊ : ℕ) := by
      exact_mod_cast Nat.one_le_iff_ne_zero.mpr hne
    nlinarith
  · rename_i hfar
    split
    · push_cast
      nlinarith
    · split
      · nlinarith
      · push_cast
        nlinarith

theorem le_sq_roundSqrt (x : ℚ) :
  x ≤ ((roundSqrt x : ℚ) + 1 / 2) ^ 2
  := by
  have hupper := lt_sqrt_floor_add_one_sq x
  have hn : (0 : ℚ) ≤ (Nat.sqrt ⌊x⌋₊ : ℕ) := Nat.cast_nonneg _
  unfold roundSqrt
  simp only
  split
  · rename_i hnear
    exact hnear.le
  · split
    · push_cast
      nlinarith
    · rename_i hfar
      split
      · exact not_lt.mp hfar
      · push_cast
        nlinarith

theorem even_roundSqrt {x : ℚ} (h : x = ((roundSqrt x : ℚ) + 1 / 2) ^ 2) :
  Even (roundSqrt x)
  := by
  have hupper := lt_sqrt_floor_add_one_sq x
  have hn : (0 : ℚ) ≤ (Nat.sqrt ⌊x⌋₊ : ℕ) := Nat.cast_nonneg _
  unfold roundSqrt at h ⊢
  simp only at h ⊢
  split
  · rename_i hnear
    rw [if_pos hnear] at h
    exact absurd h hnear.ne
  · rename_i hfar
    rw [if_neg hfar] at h
    split
    · rename_i hnear
      rw [if_pos hnear] at h
      push_cast at h
      nlinarith
    · rename_i hnear
      rw [if_neg hnear] at h
      split
      · assumption
      · rename_i hodd
        rw [if_neg hodd] at h
        push_cast at h
        nlinarith

/-- A square root is rounded to an even integer or beyond from half a unit below it on. -/
theorem le_roundSqrt_iff_of_even {k : ℕ} (hk : Even k) (hpos : 0 < k) {x : ℚ} (hx : 0 ≤ x) :
  k ≤ roundSqrt x ↔ ((k : ℚ) - 1 / 2) ^ 2 ≤ x
  := by
  have hone : (1 : ℚ) ≤ k := by exact_mod_cast hpos
  constructor
  · intro h
    have hle : (k : ℚ) ≤ roundSqrt x := by exact_mod_cast h
    have hbelow := sq_roundSqrt_le hx (by omega)
    nlinarith
  · intro h
    by_contra hlt
    have hle : (roundSqrt x : ℚ) + 1 ≤ k := by exact_mod_cast not_le.mp hlt
    have hr : (0 : ℚ) ≤ roundSqrt x := Nat.cast_nonneg _
    have habove := le_sq_roundSqrt x
    have htie : x = ((roundSqrt x : ℚ) + 1 / 2) ^ 2 := by
      apply le_antisymm habove
      nlinarith
    have hnext : (roundSqrt x : ℚ) + 1 = k := by
      apply le_antisymm hle
      nlinarith
    have hodd : Odd k := by
      rw [← (by exact_mod_cast hnext : roundSqrt x + 1 = k)]
      exact (even_roundSqrt htie).add_one
    exact Nat.not_even_iff_odd.mpr hodd hk

/-! ### Finite doubles -/

/-- The finite doubles: a mantissa of 53 bits at an exponent that is not too small, within the
range of the format. -/
def Representable (x : ℚ) : Prop :=
  |x| < 2 ^ 1024 ∧ ∃ m e : ℤ, |m| < 2 ^ 53 ∧ -1074 ≤ e ∧ x = m * 2 ^ e

/-- The exponent of the last digit of the doubles around a number. -/
def lastPlace (x : ℚ) : ℤ :=
  max (Int.log 2 |x| - 52) (-1074)

/-- The double nearest to a number, if it were not for the range of the format. -/
def nearest (x : ℚ) : ℚ :=
  roundEven (x / 2 ^ lastPlace x) * 2 ^ lastPlace x

/-- The exponent of the last digit of the doubles around a square root. -/
def lastPlaceSqrt (x : ℚ) : ℤ :=
  max (Int.log 2 x / 2 - 52) (-1074)

/-- The double nearest to the square root of a number. -/
def nearestSqrt (x : ℚ) : ℚ :=
  roundSqrt (x / 4 ^ lastPlaceSqrt x) * 2 ^ lastPlaceSqrt x

theorem two_zpow_add (n : ℕ) (e : ℤ) :
  (2 : ℚ) ^ (n + e) = 2 ^ n * 2 ^ e
  := by
  rw [zpow_add₀ (by norm_num), zpow_natCast]

theorem two_zpow_sq (e : ℤ) :
  ((2 : ℚ) ^ e) ^ 2 = 4 ^ e
  := by
  rw [← zpow_natCast, zpow_comm]
  norm_num

theorem four_pow_mul_zpow (n : ℕ) (e : ℤ) :
  (4 : ℚ) ^ n * 4 ^ e = 2 ^ (2 * n + 2 * e)
  := by
  rw [← zpow_natCast, ← zpow_add₀ (by norm_num), ← mul_add, zpow_mul]
  norm_num

theorem abs_lt_lastPlace (x : ℚ) :
  |x| < 2 ^ 53 * 2 ^ lastPlace x
  := by
  have hlog := Int.lt_zpow_succ_log_self Nat.one_lt_two |x|
  rw [← two_zpow_add]
  refine hlog.trans_le (zpow_le_zpow_right₀ (by norm_num) ?_)
  rw [lastPlace]
  omega

theorem lastPlace_le_abs {x : ℚ} (hx : x ≠ 0) (h : -1074 < lastPlace x) :
  2 ^ 52 * 2 ^ lastPlace x ≤ |x|
  := by
  have hlog := Int.zpow_log_le_self Nat.one_lt_two (abs_pos.mpr hx)
  rw [← two_zpow_add]
  refine (zpow_le_zpow_right₀ (by norm_num) ?_).trans hlog
  rw [lastPlace] at h ⊢
  omega

theorem lt_lastPlaceSqrt (x : ℚ) :
  x < 4 ^ 53 * 4 ^ lastPlaceSqrt x
  := by
  have hlog := Int.lt_zpow_succ_log_self Nat.one_lt_two x
  rw [four_pow_mul_zpow]
  refine hlog.trans_le (zpow_le_zpow_right₀ (by norm_num) ?_)
  rw [lastPlaceSqrt]
  omega

theorem lastPlaceSqrt_le {x : ℚ} (hx : 0 < x) (h : -1074 < lastPlaceSqrt x) :
  4 ^ 52 * 4 ^ lastPlaceSqrt x ≤ x
  := by
  have hlog := Int.zpow_log_le_self Nat.one_lt_two hx
  rw [four_pow_mul_zpow]
  refine (zpow_le_zpow_right₀ (by norm_num) ?_).trans hlog
  rw [lastPlaceSqrt] at h ⊢
  omega

/-- The place of a mantissa relative to another number with a mantissa of full length, when their
last digits have different exponents, is decided by the exponents. -/
theorem mul_two_zpow_le_iff {P : Prop} {k m e E : ℤ} (hk : 2 ^ 52 < k) (hk' : k ≤ 2 ^ 53)
    (hsame : E = e → (k ≤ m ↔ P)) (hbelow : E < e → m ≤ 2 ^ 53 ∧ ¬ P)
    (habove : e < E → 2 ^ 52 ≤ m ∧ P) :
  (k : ℚ) * 2 ^ e ≤ m * 2 ^ E ↔ P
  := by
  rcases lt_trichotomy E e with hlt | rfl | hgt
  · obtain ⟨hm, hP⟩ := hbelow hlt
    refine iff_of_false (not_le.mpr ?_) hP
    calc
      (m : ℚ) * 2 ^ E ≤ 2 ^ 53 * 2 ^ E := by
        apply mul_le_mul_of_nonneg_right _ (by positivity)
        exact_mod_cast hm
      _ = 2 ^ ((53 : ℕ) + E) := (two_zpow_add 53 E).symm
      _ ≤ 2 ^ ((52 : ℕ) + e) := zpow_le_zpow_right₀ (by norm_num) (by omega)
      _ = 2 ^ 52 * 2 ^ e := two_zpow_add 52 e
      _ < k * 2 ^ e := by
        apply mul_lt_mul_of_pos_right _ (by positivity)
        exact_mod_cast hk
  · rw [← hsame rfl]
    have hpos : (0 : ℚ) < 2 ^ E := by positivity
    rw [mul_le_mul_iff_left₀ hpos]
    norm_cast
  · obtain ⟨hm, hP⟩ := habove hgt
    refine iff_of_true ?_ hP
    calc
      (k : ℚ) * 2 ^ e ≤ 2 ^ 53 * 2 ^ e := by
        apply mul_le_mul_of_nonneg_right _ (by positivity)
        exact_mod_cast hk'
      _ = 2 ^ ((53 : ℕ) + e) := (two_zpow_add 53 e).symm
      _ ≤ 2 ^ ((52 : ℕ) + E) := zpow_le_zpow_right₀ (by norm_num) (by omega)
      _ = 2 ^ 52 * 2 ^ E := two_zpow_add 52 E
      _ ≤ m * 2 ^ E := by
        apply mul_le_mul_of_nonneg_right _ (by positivity)
        exact_mod_cast hm

/-- What decides whether a number is rounded to a double or beyond lies between that double and the
one before it. -/
theorem le_nearest_iff {P : Prop} {k e : ℤ} (hk : 2 ^ 52 < k) (hk' : k ≤ 2 ^ 53) (he : -1074 ≤ e)
    {x : ℚ} (hx : 0 ≤ x) (hsame : k ≤ roundEven (x / 2 ^ e) ↔ P)
    (hbelow : x ≤ 2 ^ 52 * 2 ^ e → ¬ P) (habove : k * 2 ^ e ≤ x → P) :
  k * 2 ^ e ≤ nearest x ↔ P
  := by
  rcases hx.eq_or_lt with rfl | hpos
  · refine iff_of_false (not_le.mpr ?_) (hbelow (by positivity))
    have hkpos : (0 : ℚ) < k := by exact_mod_cast (by norm_num : (0 : ℤ) < 2 ^ 52).trans hk
    rw [nearest, zero_div, roundEven_zero, Int.cast_zero, zero_mul]
    positivity
  rw [nearest]
  apply mul_two_zpow_le_iff hk hk'
  · rintro heq
    rwa [heq]
  · intro hlt
    have hupper := abs_lt_lastPlace x
    rw [abs_of_nonneg hx] at hupper
    constructor
    · have hdiv : x / 2 ^ lastPlace x < 2 ^ 53 := (div_lt_iff₀ (by positivity)).mpr hupper
      have hround := roundEven_le (x / 2 ^ lastPlace x)
      have hlt' : (roundEven (x / 2 ^ lastPlace x) : ℚ) < 2 ^ 53 + 1 := by linarith
      exact Int.lt_add_one_iff.mp (by exact_mod_cast hlt')
    · apply hbelow
      calc
        x ≤ 2 ^ 53 * 2 ^ lastPlace x := hupper.le
        _ = 2 ^ ((53 : ℕ) + lastPlace x) := (two_zpow_add 53 _).symm
        _ ≤ 2 ^ ((52 : ℕ) + e) := zpow_le_zpow_right₀ (by norm_num) (by omega)
        _ = 2 ^ 52 * 2 ^ e := two_zpow_add 52 e
  · intro hgt
    have hlower := lastPlace_le_abs hpos.ne' (he.trans_lt hgt)
    rw [abs_of_nonneg hx] at hlower
    constructor
    · have hdiv : 2 ^ 52 ≤ x / 2 ^ lastPlace x := (le_div_iff₀ (by positivity)).mpr hlower
      rw [le_roundEven_iff_of_even (by decide)]
      push_cast
      linarith
    · apply habove
      calc
        (k : ℚ) * 2 ^ e ≤ 2 ^ 53 * 2 ^ e := by
          apply mul_le_mul_of_nonneg_right _ (by positivity)
          exact_mod_cast hk'
        _ = 2 ^ ((53 : ℕ) + e) := (two_zpow_add 53 e).symm
        _ ≤ 2 ^ ((52 : ℕ) + lastPlace x) := zpow_le_zpow_right₀ (by norm_num) (by omega)
        _ = 2 ^ 52 * 2 ^ lastPlace x := two_zpow_add 52 _
        _ ≤ x := hlower

theorem le_nearest_iff_of_even {k e : ℤ} (heven : Even k) (hk : 2 ^ 52 < k) (hk' : k ≤ 2 ^ 53)
    (he : -1074 ≤ e) {x : ℚ} (hx : 0 ≤ x) :
  k * 2 ^ e ≤ nearest x ↔ (k - 1 / 2) * 2 ^ e ≤ x
  := by
  have hpos : (0 : ℚ) < 2 ^ e := by positivity
  have hlong : (2 : ℚ) ^ 52 + 1 ≤ k := by exact_mod_cast hk
  apply le_nearest_iff hk hk' he hx
  · rw [le_roundEven_iff_of_even heven, le_div_iff₀ hpos]
  · intro hle
    nlinarith
  · intro hle
    nlinarith

theorem le_nearest_iff_of_odd {k e : ℤ} (hodd : Odd k) (hk : 2 ^ 52 < k) (hk' : k ≤ 2 ^ 53)
    (he : -1074 ≤ e) {x : ℚ} (hx : 0 ≤ x) :
  k * 2 ^ e ≤ nearest x ↔ (k - 1 / 2) * 2 ^ e < x
  := by
  have hpos : (0 : ℚ) < 2 ^ e := by positivity
  have hlong : (2 : ℚ) ^ 52 + 1 ≤ k := by exact_mod_cast hk
  apply le_nearest_iff hk hk' he hx
  · rw [le_roundEven_iff_of_odd hodd, lt_div_iff₀ hpos]
  · intro hle
    nlinarith
  · intro hle
    nlinarith

theorem roundSqrt_le {x : ℚ} (hx : 0 ≤ x) (hlt : x < 4 ^ 53) :
  roundSqrt x ≤ 2 ^ 53
  := by
  by_contra hgt
  have hlong : (2 : ℚ) ^ 53 + 1 ≤ roundSqrt x := by exact_mod_cast not_le.mp hgt
  have hbelow := sq_roundSqrt_le hx (by omega)
  nlinarith

theorem le_nearestSqrt_iff {k : ℕ} {e : ℤ} (heven : Even k) (hk : 2 ^ 52 < k) (hk' : k ≤ 2 ^ 53)
    (he : -1074 ≤ e) {x : ℚ} (hx : 0 < x) :
  k * 2 ^ e ≤ nearestSqrt x ↔ ((k - 1 / 2) * 2 ^ e) ^ 2 ≤ x
  := by
  have hpos : (0 : ℚ) < 2 ^ e := by positivity
  have hlong : (2 : ℚ) ^ 52 + 1 ≤ k := by exact_mod_cast hk
  have hshort : (k : ℚ) ≤ 2 ^ 53 := by exact_mod_cast hk'
  rw [nearestSqrt]
  have hiff := mul_two_zpow_le_iff (P := ((k - 1 / 2) * 2 ^ e) ^ 2 ≤ x)
    (k := k) (m := roundSqrt (x / 4 ^ lastPlaceSqrt x)) (e := e) (E := lastPlaceSqrt x)
    (by exact_mod_cast hk) (by exact_mod_cast hk') ?_ ?_ ?_
  · exact_mod_cast hiff
  · rintro rfl
    rw [Nat.cast_le, le_roundSqrt_iff_of_even heven (by omega) (by positivity),
      le_div_iff₀ (by positivity), mul_pow, two_zpow_sq]
  · intro hlt
    have hupper := lt_lastPlaceSqrt x
    constructor
    · exact_mod_cast roundSqrt_le (by positivity)
        ((div_lt_iff₀ (by positivity)).mpr hupper)
    · have hmono : (4 : ℚ) ^ 53 * 4 ^ lastPlaceSqrt x ≤ (2 ^ 52 * 2 ^ e) ^ 2 := by
        have hle : (4 : ℚ) ^ lastPlaceSqrt x ≤ 4 ^ (e - 1) :=
          zpow_le_zpow_right₀ (by norm_num) (by omega)
        rw [mul_pow, two_zpow_sq]
        rw [zpow_sub_one₀ (by norm_num)] at hle
        linarith
      have hmantissa : (2 : ℚ) ^ 52 * 2 ^ e ≤ (k - 1 / 2) * 2 ^ e :=
        mul_le_mul_of_nonneg_right (by linarith) hpos.le
      have hsq : ((2 : ℚ) ^ 52 * 2 ^ e) ^ 2 ≤ ((k - 1 / 2) * 2 ^ e) ^ 2 :=
        pow_le_pow_left₀ (by positivity) hmantissa 2
      exact not_le.mpr (hupper.trans_le (hmono.trans hsq))
  · intro hgt
    have hlower := lastPlaceSqrt_le hx (he.trans_lt hgt)
    constructor
    · have hdiv : 4 ^ 52 ≤ x / 4 ^ lastPlaceSqrt x := (le_div_iff₀ (by positivity)).mpr hlower
      have hround : 2 ^ 52 ≤ roundSqrt (x / 4 ^ lastPlaceSqrt x) := by
        rw [le_roundSqrt_iff_of_even (by decide) (by positivity) (by positivity)]
        push_cast
        linarith
      exact_mod_cast hround
    · have hmono : ((2 : ℚ) ^ 53 * 2 ^ e) ^ 2 ≤ 4 ^ 52 * 4 ^ lastPlaceSqrt x := by
        have hle : (4 : ℚ) ^ (e + 1) ≤ 4 ^ lastPlaceSqrt x :=
          zpow_le_zpow_right₀ (by norm_num) (by omega)
        rw [mul_pow, two_zpow_sq]
        rw [zpow_add_one₀ (by norm_num)] at hle
        linarith
      have hmantissa : ((k : ℚ) - 1 / 2) * 2 ^ e ≤ 2 ^ 53 * 2 ^ e :=
        mul_le_mul_of_nonneg_right (by linarith) hpos.le
      have hsq : (((k : ℚ) - 1 / 2) * 2 ^ e) ^ 2 ≤ (2 ^ 53 * 2 ^ e) ^ 2 := by
        apply pow_le_pow_left₀ _ hmantissa
        exact mul_nonneg (by linarith) hpos.le
      exact hsq.trans (hmono.trans hlower)

/-- A double beyond another with a mantissa of full length reaches the next one. -/
theorem Representable.le_of_lt {x : ℚ} (h : Representable x) {k e : ℤ} (hk : 2 ^ 52 < k)
    (hlt : (k - 1) * 2 ^ e < x) :
  k * 2 ^ e ≤ x
  := by
  obtain ⟨-, m, e', hm, -, rfl⟩ := h
  have hpos : (0 : ℚ) < 2 ^ e := by positivity
  have he : e ≤ e' := by
    have hlong : (2 : ℚ) ^ 52 ≤ k - 1 := by
      have : (2 : ℚ) ^ 52 + 1 ≤ k := by exact_mod_cast hk
      linarith
    have hshort : (m : ℚ) ≤ 2 ^ 53 := by exact_mod_cast (le_abs_self m).trans hm.le
    have hpow : (2 : ℚ) ^ ((52 : ℕ) + e) < 2 ^ ((53 : ℕ) + e') := by
      rw [two_zpow_add, two_zpow_add]
      calc
        (2 : ℚ) ^ 52 * 2 ^ e ≤ (k - 1) * 2 ^ e := mul_le_mul_of_nonneg_right hlong hpos.le
        _ < m * 2 ^ e' := hlt
        _ ≤ 2 ^ 53 * 2 ^ e' := mul_le_mul_of_nonneg_right hshort (by positivity)
    have := (zpow_lt_zpow_iff_right₀ (by norm_num)).mp hpow
    omega
  obtain ⟨d, rfl⟩ : ∃ d : ℕ, e' = d + e := ⟨(e' - e).toNat, by omega⟩
  rw [two_zpow_add, ← mul_assoc] at hlt ⊢
  have hint : k - 1 < m * 2 ^ d := by exact_mod_cast (mul_lt_mul_iff_left₀ hpos).mp hlt
  have hle : k ≤ m * 2 ^ d := by omega
  exact mul_le_mul_of_nonneg_right (by exact_mod_cast hle) hpos.le

theorem representable_of_le {m e : ℤ} (hm : |m| ≤ 2 ^ 53) (he : -1074 ≤ e)
    (hlt : |(m : ℚ) * 2 ^ e| < 2 ^ 1024) :
  Representable (m * 2 ^ e)
  := by
  refine ⟨hlt, ?_⟩
  rcases hm.lt_or_eq with hm | hm
  · exact ⟨m, e, hm, he, rfl⟩
  · -- the mantissa that is too long by one is a power of two
    have hhalf : ∃ m', |m'| < 2 ^ 53 ∧ m = m' * 2 := by
      rcases (abs_eq (by norm_num)).mp hm with rfl | rfl
      · exact ⟨2 ^ 52, by norm_num, by norm_num⟩
      · exact ⟨-2 ^ 52, by norm_num, by norm_num⟩
    obtain ⟨m', hm', rfl⟩ := hhalf
    refine ⟨m', e + 1, hm', by omega, ?_⟩
    rw [zpow_add_one₀ (by norm_num)]
    push_cast
    ring

theorem representable_nearest {x : ℚ} (h : |nearest x| < 2 ^ 1024) :
  Representable (nearest x)
  := by
  refine representable_of_le ?_ (le_max_right _ _) h
  have hupper := abs_lt_lastPlace x
  have hpos : (0 : ℚ) < 2 ^ lastPlace x := by positivity
  have hdiv : |x / 2 ^ lastPlace x| < 2 ^ 53 := by
    rwa [abs_div, abs_of_pos hpos, div_lt_iff₀ hpos]
  rw [abs_lt] at hdiv
  have hle := roundEven_le (x / 2 ^ lastPlace x)
  have hge := le_roundEven (x / 2 ^ lastPlace x)
  have hlt : (roundEven (x / 2 ^ lastPlace x) : ℚ) < 2 ^ 53 + 1 := by linarith
  have hgt : -(2 ^ 53 + 1 : ℚ) < roundEven (x / 2 ^ lastPlace x) := by linarith
  rw [abs_le]
  constructor
  · have : -(2 ^ 53 + 1 : ℤ) < roundEven (x / 2 ^ lastPlace x) := by exact_mod_cast hgt
    omega
  · exact Int.lt_add_one_iff.mp (by exact_mod_cast hlt)

@[simp]
theorem nearest_zero :
  nearest 0 = 0
  := by simp [nearest]

theorem nearest_of_representable {x : ℚ} (h : Representable x) :
  nearest x = x
  := by
  obtain ⟨-, m, e, hm, he, rfl⟩ := h
  by_cases hne : (m : ℚ) * 2 ^ e = 0
  · rw [hne, nearest_zero]
  have hle : lastPlace (m * 2 ^ e) ≤ e := by
    have hlog := Int.zpow_log_le_self Nat.one_lt_two (abs_pos.mpr hne)
    have habs : |(m : ℚ) * 2 ^ e| < 2 ^ ((53 : ℕ) + e) := by
      rw [two_zpow_add, abs_mul, abs_of_pos (by positivity : (0 : ℚ) < 2 ^ e)]
      apply mul_lt_mul_of_pos_right _ (by positivity)
      exact_mod_cast hm
    have := (zpow_lt_zpow_iff_right₀ (by norm_num)).mp (hlog.trans_lt habs)
    rw [lastPlace, max_le_iff]
    omega
  -- the mantissa at the last digit of the number is an integer
  obtain ⟨d, hd⟩ : ∃ d : ℕ, e = d + lastPlace (m * 2 ^ e) :=
    ⟨(e - lastPlace (m * 2 ^ e)).toNat, by omega⟩
  have hint : (m : ℚ) * 2 ^ e / 2 ^ lastPlace (m * 2 ^ e) = (m * 2 ^ d : ℤ) := by
    rw [div_eq_iff (by positivity)]
    conv_lhs => rw [hd, two_zpow_add]
    push_cast
    ring
  rw [nearest, hint, roundEven_intCast, ← hint, div_mul_cancel₀ _ (by positivity)]

theorem nearest_nonneg {x : ℚ} (hx : 0 ≤ x) :
  0 ≤ nearest x
  := by
  have hround : 0 ≤ roundEven (x / 2 ^ lastPlace x) := by
    rw [le_roundEven_iff_of_even (by decide)]
    have : 0 ≤ x / 2 ^ lastPlace x := by positivity
    push_cast
    linarith
  rw [nearest]
  exact mul_nonneg (by exact_mod_cast hround) (by positivity)

theorem nearestSqrt_nonneg (x : ℚ) :
  0 ≤ nearestSqrt x
  := by
  rw [nearestSqrt]
  positivity

/-- The relative error of a rounding, for numbers that are not too small. -/
theorem nearest_bounds {x : ℚ} (hx : 2 ^ (-1022 : ℤ) ≤ x) :
  x * (1 - 1 / 2 ^ 53) ≤ nearest x ∧ nearest x ≤ x * (1 + 1 / 2 ^ 53)
  := by
  have hpos : 0 < x := lt_of_lt_of_le (by positivity) hx
  have hplace : 2 ^ 52 * 2 ^ lastPlace x ≤ x := by
    rcases (le_max_right (Int.log 2 |x| - 52) (-1074)).eq_or_lt with heq | hlt
    · rw [lastPlace, ← heq, ← two_zpow_add]
      exact hx
    · have hlower := lastPlace_le_abs hpos.ne' hlt
      rwa [abs_of_pos hpos] at hlower
  have hunit : (0 : ℚ) < 2 ^ lastPlace x := by positivity
  have hcancel : x / 2 ^ lastPlace x * 2 ^ lastPlace x = x := div_mul_cancel₀ _ hunit.ne'
  have hle := mul_le_mul_of_nonneg_right (le_roundEven (x / 2 ^ lastPlace x)) hunit.le
  have hge := mul_le_mul_of_nonneg_right (roundEven_le (x / 2 ^ lastPlace x)) hunit.le
  rw [sub_mul, hcancel] at hle
  rw [add_mul, hcancel] at hge
  rw [nearest]
  constructor
  · linarith
  · linarith

theorem representable_intCast {n : ℤ} (h : |n| < 2 ^ 53) :
  Representable n
  := by
  refine ⟨?_, n, 0, h, by norm_num, by simp⟩
  have hlt : |(n : ℚ)| < 2 ^ 53 := by exact_mod_cast h
  exact hlt.trans (pow_lt_pow_right₀ (by norm_num) (by norm_num))

theorem representable_nearestSqrt {x : ℚ} (h : Representable x) (hx : 0 ≤ x) :
  Representable (nearestSqrt x)
  := by
  have hupper := lt_lastPlaceSqrt x
  have hdiv : x / 4 ^ lastPlaceSqrt x < 4 ^ 53 := (div_lt_iff₀ (by positivity)).mpr hupper
  have hround := roundSqrt_le (by positivity) hdiv
  have hshort : (roundSqrt (x / 4 ^ lastPlaceSqrt x) : ℚ) ≤ 2 ^ 53 := by exact_mod_cast hround
  have hplace : lastPlaceSqrt x ≤ 970 := by
    by_contra hgt
    have hpos : 0 < x := by
      apply hx.lt_of_ne'
      rintro rfl
      simp [lastPlaceSqrt] at hgt
    have hlower := lastPlaceSqrt_le hpos (by omega)
    have hrange := h.1
    rw [abs_of_nonneg hx, ← zpow_natCast] at hrange
    rw [four_pow_mul_zpow] at hlower
    have hpow := (zpow_lt_zpow_iff_right₀ (by norm_num)).mp (hlower.trans_lt hrange)
    push_cast at hpow
    omega
  have hrepresentable := representable_of_le (m := roundSqrt (x / 4 ^ lastPlaceSqrt x))
    (e := lastPlaceSqrt x) (by simpa using hround) (le_max_right _ _) ?_
  · exact_mod_cast hrepresentable
  · rw [abs_of_nonneg (by positivity)]
    calc
      ((roundSqrt (x / 4 ^ lastPlaceSqrt x) : ℤ) : ℚ) * 2 ^ lastPlaceSqrt x
          ≤ 2 ^ 53 * 2 ^ lastPlaceSqrt x := by
        apply mul_le_mul_of_nonneg_right _ (by positivity)
        exact_mod_cast hround
      _ = 2 ^ ((53 : ℕ) + lastPlaceSqrt x) := (two_zpow_add 53 _).symm
      _ < 2 ^ ((1024 : ℕ) : ℤ) := zpow_lt_zpow_right₀ (by norm_num) (by push_cast; omega)
      _ = 2 ^ 1024 := zpow_natCast 2 1024

theorem representable_floor {x : ℚ} (h : Representable x) :
  Representable ⌊x⌋
  := by
  obtain ⟨hrange, m, e, hm, he, hx⟩ := h
  by_cases he' : 0 ≤ e
  · obtain ⟨d, rfl⟩ := Int.eq_ofNat_of_zero_le he'
    have hint : x = (m * 2 ^ d : ℤ) := by
      rw [hx]
      push_cast
      rw [zpow_natCast]
    rw [hint, Int.floor_intCast, ← hint]
    exact ⟨hrange, m, d, hm, he, hx⟩
  · have hsmall : |x| < 2 ^ 52 := by
      have hhalf : (2 : ℚ) ^ e ≤ 2 ^ (-1 : ℤ) := zpow_le_zpow_right₀ (by norm_num) (by omega)
      have hm' : |(m : ℚ)| < 2 ^ 53 := by exact_mod_cast hm
      have hpos : (0 : ℚ) < 2 ^ e := by positivity
      rw [hx, abs_mul, abs_of_pos hpos]
      rw [zpow_neg_one] at hhalf
      nlinarith [abs_nonneg (m : ℚ)]
    rw [abs_lt] at hsmall
    apply representable_intCast
    have hle := Int.floor_le x
    have hge := Int.lt_floor_add_one x
    have hlt : (⌊x⌋ : ℚ) < 2 ^ 53 := by linarith
    have hgt : -(2 ^ 53 : ℚ) < ⌊x⌋ := by linarith
    rw [abs_lt]
    constructor
    · exact_mod_cast hgt
    · exact_mod_cast hlt

/-! ### Roots of rounded numbers -/

/-- The distance from an integer to the double before it. -/
def gapBelow (n : ℕ) : ℚ :=
  2 ^ ((Nat.clog 2 n : ℤ) - 53)

theorem gapBelow_pos (n : ℕ) :
  0 < gapBelow n
  := by
  rw [gapBelow]
  positivity

theorem two_pow_clog (n : ℕ) :
  (2 : ℚ) ^ Nat.clog 2 n = 2 ^ 53 * gapBelow n
  := by
  rw [gapBelow, ← two_zpow_add, ← zpow_natCast]
  congr 1
  omega

theorem le_gapBelow (n : ℕ) :
  (n : ℚ) ≤ 2 ^ 53 * gapBelow n
  := by
  rw [← two_pow_clog]
  exact_mod_cast Nat.le_pow_clog Nat.one_lt_two n

theorem gapBelow_lt {n : ℕ} (hn : 2 ≤ n) :
  2 ^ 52 * gapBelow n + 1 ≤ n
  := by
  have hpos : 0 < Nat.clog 2 n := Nat.clog_pos Nat.one_lt_two hn
  have hlt : 2 ^ (Nat.clog 2 n - 1) + 1 ≤ n := Nat.pow_pred_clog_lt_self Nat.one_lt_two hn
  have hhalf : (2 : ℚ) ^ (Nat.clog 2 n - 1) = 2 ^ 52 * gapBelow n := by
    have hstep : (2 : ℚ) ^ (Nat.clog 2 n - 1) * 2 = 2 ^ Nat.clog 2 n := by
      rw [← pow_succ]
      congr 1
      omega
    linarith [two_pow_clog n]
  rw [← hhalf]
  exact_mod_cast hlt

theorem gapBelow_lt_one {n : ℕ} (hn : n ≤ 2 ^ 52) :
  gapBelow n < 1
  := by
  have hle : Nat.clog 2 n ≤ 52 := (Nat.clog_le_iff_le_pow Nat.one_lt_two).mpr hn
  exact zpow_lt_one_of_neg₀ (by norm_num) (by omega)

/-- The mantissa of an integer is even, as long as the integer is not too large. -/
theorem exists_mantissa {n : ℕ} (hn : 2 ≤ n) (hn' : n ≤ 2 ^ 52) :
  ∃ k : ℕ, Even k ∧ 2 ^ 52 < k ∧ k ≤ 2 ^ 53 ∧ (n : ℚ) = k * gapBelow n
  := by
  have hle : Nat.clog 2 n ≤ 52 := (Nat.clog_le_iff_le_pow Nat.one_lt_two).mpr hn'
  have hgap := gapBelow_pos n
  obtain ⟨d, hd⟩ : ∃ d : ℕ, Nat.clog 2 n + (d + 1) = 53 := ⟨52 - Nat.clog 2 n, by omega⟩
  have hmantissa : (n : ℚ) = (n * 2 ^ (d + 1) : ℕ) * gapBelow n := by
    have hexponent : (Nat.clog 2 n : ℤ) - 53 = -((d + 1 : ℕ) : ℤ) := by omega
    rw [gapBelow, hexponent, zpow_neg, zpow_natCast]
    push_cast
    rw [mul_inv_cancel_right₀ (by positivity)]
  refine ⟨n * 2 ^ (d + 1), ?_, ?_, ?_, hmantissa⟩
  · rw [pow_succ, ← mul_assoc]
    exact even_two.mul_left _
  · have hlower := gapBelow_lt hn
    have hlt : (2 : ℚ) ^ 52 * gapBelow n < (n * 2 ^ (d + 1) : ℕ) * gapBelow n := by
      rw [← hmantissa]
      linarith
    exact_mod_cast (mul_lt_mul_iff_left₀ hgap).mp hlt
  · have hupper := le_gapBelow n
    rw [hmantissa] at hupper
    exact_mod_cast (mul_le_mul_iff_left₀ hgap).mp hupper

/-- The exponent of a square is even when the square lies in the upper half of its range. -/
theorem gapBelow_sq {d : ℕ} (hd : 2 ≤ d) :
  (Even (Nat.clog 2 (d ^ 2)) ∧ gapBelow (d ^ 2) = 2 ^ 53 * gapBelow d ^ 2)
  ∨ (¬ Even (Nat.clog 2 (d ^ 2)) ∧ gapBelow (d ^ 2) = 2 ^ 52 * gapBelow d ^ 2)
  := by
  have hpos : 0 < Nat.clog 2 d := Nat.clog_pos Nat.one_lt_two hd
  have hle : Nat.clog 2 (d ^ 2) ≤ 2 * Nat.clog 2 d := by
    rw [Nat.clog_le_iff_le_pow Nat.one_lt_two, mul_comm, pow_mul]
    exact Nat.pow_le_pow_left (Nat.le_pow_clog Nat.one_lt_two d) 2
  have hlt : 2 * (Nat.clog 2 d - 1) < Nat.clog 2 (d ^ 2) := by
    rw [Nat.lt_clog_iff_pow_lt Nat.one_lt_two, mul_comm, pow_mul]
    exact Nat.pow_lt_pow_left (Nat.pow_pred_clog_lt_self Nat.one_lt_two hd) (by decide)
  have hgap : ∀ n : ℕ, (2 : ℚ) ^ n * gapBelow d ^ 2
      = 2 ^ ((n : ℤ) + 2 * ((Nat.clog 2 d : ℤ) - 53)) := by
    intro n
    rw [two_zpow_add, gapBelow, two_zpow_sq, zpow_mul]
    norm_num
  by_cases heven : Nat.clog 2 (d ^ 2) = 2 * Nat.clog 2 d
  · refine .inl ⟨heven ▸ even_two_mul _, ?_⟩
    rw [hgap, gapBelow, heven]
    congr 1
    push_cast
    ring
  · refine .inr ⟨by rw [Nat.even_iff]; omega, ?_⟩
    rw [hgap, gapBelow]
    congr 1
    push_cast
    omega

/-- The least double whose root is rounded to an integer or beyond: its square, or the double before
its square. -/
def leastSquare (d : ℕ) : ℚ :=
  if Even (Nat.clog 2 (d ^ 2)) then d ^ 2 else d ^ 2 - gapBelow (d ^ 2)

theorem leastSquare_le_sq (d : ℕ) :
  leastSquare d ≤ d ^ 2
  := by
  rw [leastSquare]
  split
  · rfl
  · linarith [gapBelow_pos (d ^ 2)]

/-- A number close enough to the square of an integer that its root reaches the integer when both
are rounded. -/
def ReachesSquare (d : ℕ) (x : ℚ) : Prop :=
  if Even (Nat.clog 2 (d ^ 2)) then d ^ 2 - gapBelow (d ^ 2) / 2 ≤ x
  else d ^ 2 - gapBelow (d ^ 2) * (3 / 2) < x

theorem ReachesSquare.sub_le {d : ℕ} {x : ℚ} (h : ReachesSquare d x) :
  d ^ 2 - gapBelow (d ^ 2) * (3 / 2) ≤ x
  := by
  have hgap := gapBelow_pos (d ^ 2)
  unfold ReachesSquare at h
  split at h
  · linarith
  · exact h.le

instance (d : ℕ) (x : ℚ) : Decidable (ReachesSquare d x) :=
  inferInstanceAs (Decidable (ite _ _ _))

section

variable {d : ℕ} (hd : 2 ≤ d) (hd' : d ≤ 2 ^ 26)
include hd hd'

theorem leastSquare_pos :
  0 < leastSquare d
  := by
  have hgap := gapBelow_lt_one (n := d ^ 2) ((Nat.pow_le_pow_left hd' 2).trans (by norm_num))
  have hcast : (2 : ℚ) ≤ d := by exact_mod_cast hd
  rw [leastSquare]
  split
  · positivity
  · nlinarith

theorem leastSquare_le_iff {x : ℚ} (h : Representable x) (hx : 0 < x) :
  leastSquare d ≤ x ↔ (d : ℚ) ≤ nearestSqrt x
  := by
  obtain ⟨j, hjeven, hj, hj', hroot⟩ := exists_mantissa hd (hd'.trans (by norm_num))
  obtain ⟨k, heven, hk, hk', hsq⟩ := exists_mantissa (n := d ^ 2) (by nlinarith)
    ((Nat.pow_le_pow_left hd' 2).trans (by norm_num))
  have hclog : Nat.clog 2 d ≤ 26 := (Nat.clog_le_iff_le_pow Nat.one_lt_two).mpr hd'
  have hgap := gapBelow_pos d
  have hgap' := gapBelow_lt_one (hd'.trans (by norm_num))
  have hlower := gapBelow_lt hd
  have hupper := le_gapBelow d
  push_cast at hsq
  have hthreshold : (d : ℚ) ≤ nearestSqrt x ↔ (d - gapBelow d / 2) ^ 2 ≤ x := by
    have hfactor : ((j : ℚ) - 1 / 2) * gapBelow d = d - gapBelow d / 2 := by
      conv_rhs => rw [hroot]
      ring
    conv_lhs => rw [hroot]
    rw [← hfactor]
    exact le_nearestSqrt_iff hjeven hj hj' (by omega) hx
  rw [hthreshold, leastSquare]
  rcases gapBelow_sq hd with ⟨hexponent, hgapSq⟩ | ⟨hexponent, hgapSq⟩
  · rw [if_pos hexponent]
    refine ⟨fun hle => by nlinarith, fun hle => ?_⟩
    -- beyond the double before the square
    rw [hsq]
    apply h.le_of_lt (k := k) (by exact_mod_cast hk)
    rw [← gapBelow]
    push_cast
    nlinarith
  · rw [if_neg hexponent]
    refine ⟨fun hle => by nlinarith, fun hle => ?_⟩
    -- beyond the second double before the square
    have hlt : 2 ^ 52 < (k : ℤ) - 1 := by
      rw [Nat.even_iff] at heven
      omega
    have hreach := h.le_of_lt hlt (e := (Nat.clog 2 (d ^ 2) : ℤ) - 53) (by
      rw [← gapBelow]
      push_cast
      nlinarith)
    rw [← gapBelow] at hreach
    push_cast at hreach
    linarith

theorem leastSquare_le_nearest_iff {x : ℚ} (hx : 0 ≤ x) :
  leastSquare d ≤ nearest x ↔ ReachesSquare d x
  := by
  obtain ⟨k, heven, hk, hk', hsq⟩ := exists_mantissa (n := d ^ 2) (by nlinarith)
    ((Nat.pow_le_pow_left hd' 2).trans (by norm_num))
  push_cast at hsq
  rw [leastSquare, ReachesSquare]
  split
  · rw [hsq, gapBelow, ← Int.cast_natCast,
      le_nearest_iff_of_even (by exact_mod_cast heven) (by exact_mod_cast hk)
        (by exact_mod_cast hk') (by omega) hx]
    ring_nf
  · have hodd : Odd ((k : ℤ) - 1) := by
      rw [Nat.even_iff] at heven
      rw [Int.odd_iff]
      omega
    have hprevious : (k : ℚ) * gapBelow (d ^ 2) - gapBelow (d ^ 2)
        = ((k - 1 : ℤ) : ℚ) * 2 ^ ((Nat.clog 2 (d ^ 2) : ℤ) - 53) := by
      rw [← gapBelow]
      push_cast
      ring
    rw [hsq, hprevious, le_nearest_iff_of_odd hodd (by rw [Nat.even_iff] at heven; omega) (by omega)
      (by omega) hx, ← gapBelow]
    push_cast
    ring_nf

end

end Double

/-! ### Doubles -/

/-- A double. -/
inductive Double where
  | finite (value : ℚ) (representable : Double.Representable value)
  | infinity (negative : Bool)
  | nan
  deriving DecidableEq

namespace Double

/-- The double a number is rounded to. -/
def ofRat (x : ℚ) : Double :=
  if h : |nearest x| < 2 ^ 1024 then finite (nearest x) (representable_nearest h)
  else infinity (decide (x < 0))

instance : NatCast Double where
  natCast n := ofRat n

instance (n : ℕ) : OfNat Double n where
  ofNat := ofRat n

def isFinite : Double → Bool
  | finite _ _ => true
  | _ => false

def le : Double → Double → Bool
  | finite x _, finite y _ => x ≤ y
  | finite _ _, infinity negative => !negative
  | infinity negative, finite _ _ => negative
  | infinity negative, infinity negative' => negative || !negative'
  | _, _ => false

def lt : Double → Double → Bool
  | finite x _, finite y _ => x < y
  | finite _ _, infinity negative => !negative
  | infinity negative, finite _ _ => negative
  | infinity negative, infinity negative' => negative && !negative'
  | _, _ => false

instance : LE Double where
  le x y := le x y = true

instance : LT Double where
  lt x y := lt x y = true

instance (x y : Double) : Decidable (x ≤ y) :=
  inferInstanceAs (Decidable (le x y = true))

instance (x y : Double) : Decidable (x < y) :=
  inferInstanceAs (Decidable (lt x y = true))

def add : Double → Double → Double
  | finite x _, finite y _ => ofRat (x + y)
  | finite _ _, infinity negative => infinity negative
  | infinity negative, finite _ _ => infinity negative
  | infinity negative, infinity negative' => if negative = negative' then infinity negative else nan
  | _, _ => nan

def mul : Double → Double → Double
  | finite x _, finite y _ => ofRat (x * y)
  | finite x _, infinity negative => if x = 0 then nan else infinity (negative ^^ decide (x < 0))
  | infinity negative, finite y _ => if y = 0 then nan else infinity (negative ^^ decide (y < 0))
  | infinity negative, infinity negative' => infinity (negative ^^ negative')
  | _, _ => nan

def div : Double → Double → Double
  | finite x _, finite y _ =>
      if y = 0 then if x = 0 then nan else infinity (decide (x < 0)) else ofRat (x / y)
  | finite _ _, infinity _ => 0
  | infinity negative, finite y _ => infinity (negative ^^ decide (y < 0))
  | _, _ => nan

instance : Add Double where
  add := add

instance : Mul Double where
  mul := mul

instance : Div Double where
  div := div

def sqrt : Double → Double
  | finite x h =>
      if hx : 0 ≤ x then finite (nearestSqrt x) (representable_nearestSqrt h hx) else nan
  | infinity false => infinity false
  | _ => nan

def floor : Double → Double
  | finite x h => finite ⌊x⌋ (representable_floor h)
  | infinity negative => infinity negative
  | nan => nan

/-- The integer nearest to a double, and of two the larger one. -/
def round : Double → Double
  | finite x _ => ofRat ⌊x + 1 / 2⌋
  | infinity negative => infinity negative
  | nan => nan

/-- The smaller of two doubles, and no number when one of them is none. -/
protected def min (x y : Double) : Double :=
  if x = nan ∨ y = nan then nan else if x ≤ y then x else y

/-- The larger of two doubles, and no number when one of them is none. -/
protected def max (x y : Double) : Double :=
  if x = nan ∨ y = nan then nan else if x ≤ y then y else x

theorem natCast_eq {n : ℕ} (h : n < 2 ^ 53) :
  ∃ hn, (n : Double) = finite n hn
  := by
  have hn : Representable n := by
    exact_mod_cast representable_intCast (n := n) (by rw [Nat.abs_cast]; exact_mod_cast h)
  refine ⟨hn, ?_⟩
  change ofRat n = finite n hn
  have hnearest := nearest_of_representable hn
  have hrange : |nearest (n : ℚ)| < 2 ^ 1024 := by
    rw [hnearest]
    exact hn.1
  rw [ofRat, dif_pos hrange]
  congr 1

theorem natCast_inj {m n : ℕ} (hm : m < 2 ^ 53) (hn : n < 2 ^ 53) :
  (m : Double) = n ↔ m = n
  := by
  obtain ⟨_, hm⟩ := natCast_eq hm
  obtain ⟨_, hn⟩ := natCast_eq hn
  rw [hm, hn, finite.injEq, Nat.cast_inj]

theorem natCast_lt {m n : ℕ} (hm : m < 2 ^ 53) (hn : n < 2 ^ 53) :
  (m : Double) < n ↔ m < n
  := by
  obtain ⟨_, hm⟩ := natCast_eq hm
  obtain ⟨_, hn⟩ := natCast_eq hn
  rw [hm, hn]
  change lt (finite m _) (finite n _) = true ↔ m < n
  rw [lt, decide_eq_true_eq, Nat.cast_lt]

/-- A number well within the range is rounded with a small relative error. -/
theorem exists_ofRat {x : ℚ} (hx : 1 / 10 ^ 20 ≤ x) (hx' : x ≤ 10 ^ 20) :
  ∃ y h, ofRat x = finite y h ∧ x * (1 - 1 / 2 ^ 53) ≤ y ∧ y ≤ x * (1 + 1 / 2 ^ 53)
  := by
  have hsmall : (2 : ℚ) ^ (-1022 : ℤ) ≤ x := by
    have hle : (2 : ℚ) ^ (-1022 : ℤ) ≤ 2 ^ (-67 : ℤ) := zpow_le_zpow_right₀ (by norm_num) (by norm_num)
    have hnum : (2 : ℚ) ^ (-67 : ℤ) ≤ 1 / 10 ^ 20 := by norm_num
    exact hle.trans (hnum.trans hx)
  obtain ⟨hlower, hupper⟩ := nearest_bounds hsmall
  have hpos : 0 < nearest x := by
    have : (0 : ℚ) < 1 / 10 ^ 20 := by positivity
    nlinarith
  have hrange : |nearest x| < 2 ^ 1024 := by
    have hlt : nearest x < 2 ^ 68 := by
      have : x * (1 + 1 / 2 ^ 53) ≤ 10 ^ 20 * (1 + 1 / 2 ^ 53) :=
        mul_le_mul_of_nonneg_right hx' (by norm_num)
      have hnum : (10 : ℚ) ^ 20 * (1 + 1 / 2 ^ 53) < 2 ^ 68 := by norm_num
      linarith
    rw [abs_of_pos hpos]
    exact hlt.trans (pow_lt_pow_right₀ (by norm_num) (by norm_num))
  exact ⟨nearest x, representable_nearest hrange, dif_pos hrange, hlower, hupper⟩

/-- A double is at most zero exactly when its value is. -/
theorem finite_le_zero {x : ℚ} {h : Representable x} :
  finite x h ≤ 0 ↔ x ≤ 0
  := by
  obtain ⟨_, hzero⟩ := natCast_eq (n := 0) (by norm_num)
  change le (finite x h) ((0 : ℕ) : Double) = true ↔ x ≤ 0
  rw [hzero, le, decide_eq_true_eq, Nat.cast_zero]

theorem ofRat_of_nonneg {x : ℚ} (hx : 0 ≤ x) :
  (∃ h, ofRat x = finite (nearest x) h ∧ 0 ≤ nearest x)
  ∨ (ofRat x = infinity false ∧ 2 ^ 1024 ≤ nearest x)
  := by
  have hnonneg := nearest_nonneg hx
  by_cases h : |nearest x| < 2 ^ 1024
  · exact .inl ⟨representable_nearest h, dif_pos h, hnonneg⟩
  · rw [abs_of_nonneg hnonneg] at h
    refine .inr ⟨?_, not_lt.mp h⟩
    rw [ofRat, dif_neg (by rwa [abs_of_nonneg hnonneg]), decide_eq_false (not_lt.mpr hx)]

theorem natCast_le_floor_nearestSqrt_iff {d : ℕ} (hd : 2 ≤ d) (hd' : d ≤ 2 ^ 26) {x : ℚ}
    (h : Representable x) (hx : 0 ≤ x) :
  (d : ℤ) ≤ ⌊nearestSqrt x⌋ ↔ leastSquare d ≤ x
  := by
  rw [Int.le_floor, Int.cast_natCast]
  rcases hx.eq_or_lt with rfl | hpos
  · refine iff_of_false (not_le.mpr ?_) (not_le.mpr (leastSquare_pos hd hd'))
    have hcast : (0 : ℚ) < d := by exact_mod_cast (by omega : 0 < d)
    simpa [nearestSqrt, roundSqrt] using hcast
  · exact (leastSquare_le_iff hd hd' h hpos).symm

theorem min_natCast {c n : ℕ} (hc : c < 2 ^ 53) {h : Representable n} :
  Double.min c (finite n h) = (min c n : ℕ)
  := by
  obtain ⟨hc', hcast⟩ := natCast_eq hc
  rw [hcast, Double.min, if_neg (by simp)]
  change (if le (finite c hc') (finite n h) = true then finite (c : ℚ) hc' else finite n h) = _
  simp only [le, decide_eq_true_eq, Nat.cast_le]
  split
  · rename_i hle
    rw [min_eq_left hle, hcast]
  · rename_i hlt
    obtain ⟨_, hn⟩ := natCast_eq (n := n) (by omega)
    rw [min_eq_right (by omega), hn]

/-- The integer a root is cut to, when an integer is the most it may be. -/
theorem exists_min_floor_sqrt {c : ℕ} (hc : c ≤ 2 ^ 26) {x : ℚ} (hx : 0 ≤ x) :
  ∃ n : ℕ, Double.min c (ofRat x).sqrt.floor = n
    ∧ ∀ d, 2 ≤ d → (d ≤ n ↔ d ≤ c ∧ ReachesSquare d x)
  := by
  have hc' : c < 2 ^ 53 := hc.trans_lt (by norm_num)
  rcases ofRat_of_nonneg hx with ⟨hy, heq, hnonneg⟩ | ⟨heq, hlarge⟩
  · obtain ⟨n, hn⟩ : ∃ n : ℕ, ⌊nearestSqrt (nearest x)⌋ = n :=
      Int.eq_ofNat_of_zero_le (Int.floor_nonneg.mpr (nearestSqrt_nonneg _))
    refine ⟨min c n, ?_, fun d hd => ?_⟩
    · have hfloor : ∃ h, (ofRat x).sqrt.floor = finite n h := by
        have hcut : Representable n := by
          have := representable_floor (representable_nearestSqrt hy hnonneg)
          rwa [hn, Int.cast_natCast] at this
        refine ⟨hcut, ?_⟩
        rw [heq, sqrt, dif_pos hnonneg, floor]
        simp only [hn, Int.cast_natCast]
      obtain ⟨h, hfloor⟩ := hfloor
      rw [hfloor, min_natCast hc']
    · have hroot : d ≤ c → (d ≤ n ↔ ReachesSquare d x) := by
        intro hle
        rw [← leastSquare_le_nearest_iff hd (hle.trans hc) hx,
          ← natCast_le_floor_nearestSqrt_iff hd (hle.trans hc) hy hnonneg, hn, Nat.cast_le]
      rw [le_min_iff]
      exact and_congr_right hroot
  · refine ⟨c, ?_, fun d hd => ⟨fun hle => ⟨hle, ?_⟩, fun h => h.1⟩⟩
    · obtain ⟨_, hcast⟩ := natCast_eq hc'
      rw [heq, hcast]
      rfl
    · rw [← leastSquare_le_nearest_iff hd (hle.trans hc) hx]
      have hd52 : (d : ℚ) ^ 2 ≤ 2 ^ 52 := by
        exact_mod_cast (Nat.pow_le_pow_left (hle.trans hc) 2).trans (by norm_num)
      have hrange : (2 : ℚ) ^ 52 ≤ 2 ^ 1024 := pow_le_pow_right₀ (by norm_num) (by norm_num)
      exact (leastSquare_le_sq d).trans (hd52.trans (hrange.trans hlarge))

end Double
