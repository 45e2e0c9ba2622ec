import Mathlib.Algebra.Order.Floor.Ring
import Mathlib.Data.Int.Log
import Mathlib.Data.Rat.Floor
import Mathlib.Tactic.FieldSimp
import Mathlib.Tactic.Linarith
import Mathlib.Tactic.Positivity
import Mathlib.Tactic.Ring

/-!
Quotients in double precision. The numbers of pieces and of items in a piece are quotients rounded
up, and they are the same if the quotients are rounded to double precision before: below 2^53, a
quotient that is not whole is further away from the whole numbers than rounding can carry it.
-/

namespace NamedRoutes

namespace Double

/-- The whole number that is nearest to a number, of two such numbers the even one. -/
def nearest (x : ℚ) : ℤ :=
  if x - ⌊x⌋ < 1 / 2 ∨ x - ⌊x⌋ = 1 / 2 ∧ ⌊x⌋ % 2 = 0 then ⌊x⌋ else ⌊x⌋ + 1

/-- How far the numbers of 53 binary digits lie apart around a positive number. -/
def spacing (x : ℚ) : ℚ := 2 ^ (Int.log 2 x - 52)

/-- A positive number rounded to 53 binary digits, as double precision has them where its exponents
reach. -/
def round (x : ℚ) : ℚ := nearest (x / spacing x) * spacing x

theorem nearest_le {x : ℚ} {k : ℤ} (h : x ≤ k) : nearest x ≤ k := by
  have hfloor : ⌊x⌋ ≤ k := Int.cast_le.mp ((Int.floor_le x).trans h)
  unfold nearest
  split
  · exact hfloor
  · next hfar =>
      refine Int.add_one_le_iff.mpr (lt_of_le_of_ne hfloor ?_)
      rintro rfl
      exact hfar (Or.inl (by linarith))

theorem lt_nearest {x : ℚ} {k : ℤ} (h : k + 1 / 2 < x) : k < nearest x := by
  have hfloor : k ≤ ⌊x⌋ := Int.le_floor.mpr (by linarith)
  unfold nearest
  split
  · next hnear =>
      refine lt_of_le_of_ne hfloor ?_
      rintro rfl
      rcases hnear with hnear | ⟨hnear, _⟩ <;> linarith
  · exact Int.lt_add_one_iff.mpr hfloor

theorem spacing_pos (x : ℚ) : 0 < spacing x := zpow_pos two_pos _

/-- The numbers lie closer together the smaller they are. -/
theorem spacing_le {x : ℚ} (hx : 0 < x) : spacing x ≤ x / 2 ^ 52 := by
  have hlog : (2 : ℚ) ^ Int.log 2 x ≤ x := by
    exact_mod_cast Int.zpow_log_le_self (b := 2) one_lt_two hx
  have hspacing : spacing x = 2 ^ Int.log 2 x / 2 ^ 52 := by
    unfold spacing
    rw [zpow_sub₀ two_ne_zero]
    norm_num
  rw [hspacing]
  gcongr

/-- Below 2^53 the whole numbers are among them. -/
theorem exists_mul_spacing {x : ℚ} (hx : 0 < x) (htop : x < 2 ^ 53) (k : ℤ) :
    ∃ m : ℤ, (k : ℚ) = m * spacing x := by
  have hlog : Int.log 2 x ≤ 52 := by
    have hlt : (2 : ℚ) ^ Int.log 2 x < 2 ^ (53 : ℤ) :=
      lt_of_le_of_lt (by exact_mod_cast Int.zpow_log_le_self (b := 2) one_lt_two hx)
        (by exact_mod_cast htop)
    have := (zpow_lt_zpow_iff_right₀ (one_lt_two (α := ℚ))).mp hlt
    omega
  obtain ⟨e, he⟩ : ∃ e : ℕ, Int.log 2 x - 52 = -(e : ℤ) := ⟨(52 - Int.log 2 x).toNat, by omega⟩
  refine ⟨k * 2 ^ e, ?_⟩
  unfold spacing
  rw [he, zpow_neg, zpow_natCast]
  push_cast
  field_simp

/-- A quotient that exceeds a whole number exceeds it by one part at least. -/
theorem add_inv_le_quotient {n d : ℕ} {k : ℤ} (hd : 0 < d) (h : (k : ℚ) < n / d) :
    (k : ℚ) + 1 / d ≤ n / d := by
  have hdpos : (0 : ℚ) < d := by exact_mod_cast hd
  have hless : k * d < n := by
    have := (lt_div_iff₀ hdpos).mp h
    exact_mod_cast this
  have hstep : (k : ℚ) * d + 1 ≤ n := by exact_mod_cast Int.add_one_le_iff.mpr hless
  rw [le_div_iff₀ hdpos, add_mul, one_div, inv_mul_cancel₀ hdpos.ne']
  exact hstep

/-- Half a place around a quotient of numbers below 2^53 is less than one part. -/
theorem half_spacing_lt {n d : ℕ} (hn : 0 < n) (hntop : n < 2 ^ 53) (hd : 0 < d) :
    spacing (n / d) / 2 < 1 / d := by
  have hnpos : (0 : ℚ) < n := by exact_mod_cast hn
  have hdpos : (0 : ℚ) < d := by exact_mod_cast hd
  have hntop' : (n : ℚ) < 2 ^ 53 := by exact_mod_cast hntop
  calc spacing (n / d : ℚ) / 2 ≤ (n / d : ℚ) / 2 ^ 52 / 2 := by
        gcongr
        exact spacing_le (div_pos hnpos hdpos)
    _ = n / 2 ^ 53 * (1 / d) := by ring
    _ < 1 * (1 / d) := by
        gcongr
        exact (div_lt_one (by positivity)).mpr hntop'
    _ = 1 / d := one_mul _

/-- Below 2^53, a quotient of whole numbers rounds up to the same whole number after it was rounded
to double precision. -/
theorem ceil_round {n d : ℕ} (hn : 0 < n) (hntop : n < 2 ^ 53) (hd : 0 < d) :
    ⌈round (n / d)⌉ = ⌈(n / d : ℚ)⌉ := by
  have hnpos : (0 : ℚ) < n := by exact_mod_cast hn
  have hdpos : (0 : ℚ) < d := by exact_mod_cast hd
  have hpos : (0 : ℚ) < n / d := div_pos hnpos hdpos
  have htop : (n / d : ℚ) < 2 ^ 53 :=
    lt_of_le_of_lt (div_le_self hnpos.le (by exact_mod_cast hd)) (by exact_mod_cast hntop)
  have hspacing := spacing_pos (n / d : ℚ)
  obtain ⟨k, hk⟩ : ∃ k, ⌈(n / d : ℚ)⌉ = k := ⟨_, rfl⟩
  have hceil := Int.ceil_eq_iff.mp hk
  rw [hk, Int.ceil_eq_iff]
  constructor
  · -- the whole number below is exact, and the quotient exceeds it by more than half a place
    obtain ⟨m, hm⟩ := exists_mul_spacing hpos htop (k - 1)
    push_cast at hm
    have hfar : (m + 1 / 2 : ℚ) < n / d / spacing (n / d) := by
      have hpart : ((k - 1 : ℤ) : ℚ) + 1 / d ≤ n / d :=
        add_inv_le_quotient hd (by push_cast; exact hceil.1)
      have hhalf := half_spacing_lt hn hntop hd
      rw [lt_div_iff₀ hspacing, add_mul, ← hm]
      push_cast at hpart
      linarith
    have hless : (m : ℚ) < nearest (n / d / spacing (n / d)) := by exact_mod_cast lt_nearest hfar
    rw [hm]
    exact mul_lt_mul_of_pos_right hless hspacing
  · obtain ⟨m, hm⟩ := exists_mul_spacing hpos htop k
    have hle : (n / d / spacing (n / d) : ℚ) ≤ m := by
      rw [div_le_iff₀ hspacing, ← hm]
      exact hceil.2
    have hnearest : (nearest (n / d / spacing (n / d)) : ℚ) ≤ m := by exact_mod_cast nearest_le hle
    rw [hm]
    exact mul_le_mul_of_nonneg_right hnearest hspacing.le

end Double

end NamedRoutes
