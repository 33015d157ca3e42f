import Mathlib.Data.Int.Log
import Mathlib.Tactic.FieldSimp
import Mathlib.Tactic.Linarith
import Mathlib.Tactic.Positivity
import Mathlib.Tactic.Ring

/-!
# Rounding to the nearest number with few digits

Numbers with a given number of digits in a given radix, over any ordered field with a floor: rounding to them with an
unbounded exponent (`scientific`), and rounding to a floating-point format with a smallest and a largest exponent
(`Format.nearest`), both to the nearest such number, ties to even.  A number of a format is not lost when it is
rounded to digits in another radix and back, provided there are enough of them (`nearest_scientific`).
-/

namespace Rounding

variable {K : Type*} [Field K] [LinearOrder K] [IsStrictOrderedRing K] [FloorSemiring K]

/-! ### Integers -/

/-- The nearest natural number, and the even one of two that are equally near. -/
def nearestEven (q : K) : ℕ :=
  let n := ⌊q⌋₊
  if q < n + 1 / 2 then n
  else if (n : K) + 1 / 2 < q then n + 1
  else if n % 2 = 0 then n
  else n + 1

theorem abs_sub_nearestEven_le {q : K} (hq : 0 ≤ q) : |q - nearestEven q| ≤ 1 / 2 := by
  have hlow : (⌊q⌋₊ : K) ≤ q := Nat.floor_le hq
  have hhigh : q < ⌊q⌋₊ + 1 := Nat.lt_floor_add_one q
  unfold nearestEven
  simp only
  rw [abs_le]
  split_ifs with hbelow habove heven
  · constructor <;> linarith
  · push_cast
    constructor <;> linarith
  · constructor <;> linarith
  · push_cast
    constructor <;> linarith

/-- A number nearer than one half is the nearest one. -/
theorem nearestEven_eq {q : K} (hq : 0 ≤ q) {n : ℕ} (h : |q - n| < 1 / 2) : nearestEven q = n := by
  have hnear := abs_sub_nearestEven_le hq
  rw [abs_le] at hnear
  rw [abs_lt] at h
  have hlt : ((nearestEven q : ℕ) : K) < ((n + 1 : ℕ) : K) := by
    push_cast
    linarith [hnear.1, hnear.2, h.1, h.2]
  have hgt : (n : K) < ((nearestEven q + 1 : ℕ) : K) := by
    push_cast
    linarith [hnear.1, hnear.2, h.1, h.2]
  have hle : nearestEven q < n + 1 := Nat.cast_lt.1 hlt
  have hge : n < nearestEven q + 1 := Nat.cast_lt.1 hgt
  omega

theorem nearestEven_natCast (n : ℕ) : nearestEven (n : K) = n := by
  refine nearestEven_eq (Nat.cast_nonneg n) ?_
  rw [sub_self, abs_zero]
  positivity

theorem le_nearestEven {q : K} {n : ℕ} (h : (n : K) ≤ q) : n ≤ nearestEven q := by
  have hq : 0 ≤ q := (Nat.cast_nonneg n).trans h
  have hnear := (abs_le.1 (abs_sub_nearestEven_le hq)).2
  have hlt : (n : K) < ((nearestEven q + 1 : ℕ) : K) := by
    push_cast
    linarith
  have hle : n < nearestEven q + 1 := Nat.cast_lt.1 hlt
  omega

theorem nearestEven_le {q : K} (hq : 0 ≤ q) {n : ℕ} (h : q ≤ n) : nearestEven q ≤ n := by
  have hnear := (abs_le.1 (abs_sub_nearestEven_le hq)).1
  have hlt : ((nearestEven q : ℕ) : K) < ((n + 1 : ℕ) : K) := by
    push_cast
    linarith
  have hle : nearestEven q < n + 1 := Nat.cast_lt.1 hlt
  omega

/-! ### Logarithms -/

theorem log_eq {b : ℕ} (hb : 1 < b) {q : K} (hq : 0 < q) {x : ℤ} (hlow : (b : K) ^ x ≤ q)
    (hhigh : q < (b : K) ^ (x + 1)) : Int.log b q = x := by
  have hle : x ≤ Int.log b q := (Int.zpow_le_iff_le_log hb hq).1 hlow
  have hlt : Int.log b q < x + 1 := (Int.lt_zpow_iff_log_lt hb hq).1 hhigh
  omega

/-! ### Digits -/

/-- The number `d * b ^ x` with `n` digits that is the nearest to a positive number. -/
def scientific (b n : ℕ) (q : K) : ℕ × ℤ :=
  let x := Int.log b q - n + 1
  let d := nearestEven (q / (b : K) ^ x)
  if d = b ^ n then (b ^ (n - 1), x + 1) else (d, x)

section Scientific

variable {b n : ℕ} (hb : 1 < b) (hn : 0 < n) {q : K} (hq : 0 < q)

include hb hn hq

private theorem scaled_bounds : (b : K) ^ (n - 1) ≤ q / (b : K) ^ (Int.log b q - n + 1) ∧
    q / (b : K) ^ (Int.log b q - n + 1) < (b : K) ^ n := by
  have hbpos : (0 : K) < b := by
    have : 0 < b := by omega
    exact_mod_cast this
  have hunit : (0 : K) < (b : K) ^ (Int.log b q - n + 1) := zpow_pos hbpos _
  have hlow : (b : K) ^ (n - 1) * (b : K) ^ (Int.log b q - n + 1) = (b : K) ^ Int.log b q := by
    rw [← zpow_natCast, ← zpow_add₀ hbpos.ne']
    congr 1
    omega
  have hhigh : (b : K) ^ n * (b : K) ^ (Int.log b q - n + 1) = (b : K) ^ (Int.log b q + 1) := by
    rw [← zpow_natCast, ← zpow_add₀ hbpos.ne']
    congr 1
    omega
  constructor
  · rw [le_div_iff₀ hunit, hlow]
    exact Int.zpow_log_le_self hb hq
  · rw [div_lt_iff₀ hunit, hhigh]
    exact Int.lt_zpow_succ_log_self hb q

theorem scientific_bounds : b ^ (n - 1) ≤ (scientific b n q).1 ∧ (scientific b n q).1 < b ^ n := by
  obtain ⟨hlow, hhigh⟩ := scaled_bounds hb hn hq
  have hbpos : 0 < b := by omega
  have hle : b ^ (n - 1) ≤ nearestEven (q / (b : K) ^ (Int.log b q - n + 1)) :=
    le_nearestEven (by exact_mod_cast hlow)
  have hge : nearestEven (q / (b : K) ^ (Int.log b q - n + 1)) ≤ b ^ n := by
    refine nearestEven_le ?_ ?_
    · have hpos : (0 : K) < b := by exact_mod_cast hbpos
      exact div_nonneg hq.le (zpow_pos hpos _).le
    · push_cast
      exact hhigh.le
  unfold scientific
  simp only
  split
  · exact ⟨le_refl _, Nat.pow_lt_pow_right hb (by omega)⟩
  · exact ⟨hle, by omega⟩

/-- The distance is at most half a unit of the last digit. -/
theorem abs_scientific_sub_le : |((scientific b n q).1 : K) * (b : K) ^ (scientific b n q).2 - q| *
    (2 * (b : K) ^ (n - 1)) ≤ q := by
  obtain ⟨hlow, -⟩ := scaled_bounds hb hn hq
  have hbpos : (0 : K) < b := by
    have : 0 < b := by omega
    exact_mod_cast this
  have hunit : (0 : K) < (b : K) ^ (Int.log b q - n + 1) := zpow_pos hbpos _
  have hnear := abs_sub_nearestEven_le (div_pos hq hunit).le
  have hvalue : ((scientific b n q).1 : K) * (b : K) ^ (scientific b n q).2 =
      nearestEven (q / (b : K) ^ (Int.log b q - n + 1)) * (b : K) ^ (Int.log b q - n + 1) := by
    unfold scientific
    simp only
    split
    · rename_i h
      -- all digits were the largest one, and the next unit is taken
      rw [h, zpow_add_one₀ hbpos.ne', Nat.cast_pow, Nat.cast_pow]
      have hsplit : (b : K) ^ n = (b : K) ^ (n - 1) * b := by
        rw [← pow_succ]
        congr 1
        omega
      rw [hsplit]
      ring
    · rfl
  have hscale : ((scientific b n q).1 : K) * (b : K) ^ (scientific b n q).2 - q =
      -((q / (b : K) ^ (Int.log b q - n + 1) - nearestEven (q / (b : K) ^ (Int.log b q - n + 1))) *
        (b : K) ^ (Int.log b q - n + 1)) := by
    rw [hvalue, sub_mul, div_mul_cancel₀ _ hunit.ne']
    ring
  rw [hscale, abs_neg, abs_mul, abs_of_pos hunit]
  rw [le_div_iff₀ hunit] at hlow
  calc |q / (b : K) ^ (Int.log b q - n + 1) - nearestEven (q / (b : K) ^ (Int.log b q - n + 1))| *
        (b : K) ^ (Int.log b q - n + 1) * (2 * (b : K) ^ (n - 1))
      ≤ 1 / 2 * (b : K) ^ (Int.log b q - n + 1) * (2 * (b : K) ^ (n - 1)) := by gcongr
    _ = (b : K) ^ (n - 1) * (b : K) ^ (Int.log b q - n + 1) := by ring
    _ ≤ q := hlow

/-- The digits are those of the nearest multiple of the unit. -/
theorem scientific_fst : (scientific b n q).1 = nearestEven (q / (b : K) ^ (scientific b n q).2) := by
  obtain ⟨-, hhigh⟩ := scaled_bounds hb hn hq
  have hb2 : (2 : K) ≤ b := by exact_mod_cast hb
  have hbpos : (0 : K) < b := by linarith
  have hunit : (0 : K) < (b : K) ^ (Int.log b q - n + 1) := zpow_pos hbpos _
  have hnear := abs_sub_nearestEven_le (div_pos hq hunit).le
  unfold scientific
  simp only
  split
  · rename_i h
    -- all digits were the largest one: a unit further up the distance is smaller still
    refine (nearestEven_eq (div_pos hq (zpow_pos hbpos _)).le ?_).symm
    have hsplit : (b : K) ^ n = (b : K) ^ (n - 1) * b := by
      rw [← pow_succ]
      congr 1
      omega
    rw [h, Nat.cast_pow, abs_le] at hnear
    rw [zpow_add_one₀ hbpos.ne', ← div_div, Nat.cast_pow, abs_lt]
    have hlow : (b : K) ^ (n - 1) * b - 1 / 2 ≤ q / (b : K) ^ (Int.log b q - n + 1) := by linarith [hnear.1]
    rw [hsplit] at hhigh
    constructor
    · rw [lt_sub_iff_add_lt, lt_div_iff₀ hbpos, add_mul]
      linarith
    · rw [sub_lt_iff_lt_add, div_lt_iff₀ hbpos, add_mul]
      linarith
  · rfl

omit hb hn hq [IsStrictOrderedRing K] in
/-- The exponent of the leading digit is that of the number, or one more. -/
theorem scientific_snd : (scientific b n q).2 + n = Int.log b q + 1 ∨ (scientific b n q).2 + n = Int.log b q + 2 := by
  unfold scientific
  simp only
  split
  · right
    simp only
    omega
  · left
    simp only
    omega

end Scientific

/-- A small multiple of a power of two needs many decimal digits. -/
theorem decimal_ne_binary {n T d m E : ℕ} {x : ℤ} (hpos : 0 < d) (hd : d < 10 ^ n) (hT : 10 ^ n ≤ 5 ^ T)
    (hsmall : (m : K) * 2 ^ (-(E : ℤ)) < 10 ^ (-(T : ℤ))) : (d : K) * 10 ^ x ≠ m * 2 ^ (-(E : ℤ)) := by
  intro heq
  have hx : x < -T := by
    by_contra hle
    have hone : (1 : K) ≤ d := by exact_mod_cast hpos
    have hmono : (10 : K) ^ (-(T : ℤ)) ≤ 10 ^ x := zpow_le_zpow_right₀ (by norm_num) (by omega)
    have hge : (10 : K) ^ x ≤ d * 10 ^ x := le_mul_of_one_le_left (zpow_pos (by norm_num) x).le hone
    rw [← heq] at hsmall
    linarith
  obtain ⟨k, rfl⟩ : ∃ k : ℕ, x = -k := ⟨x.natAbs, by omega⟩
  have hnat : d * 2 ^ E = 10 ^ k * m := by
    have h10 : (10 : K) ^ k ≠ 0 := pow_ne_zero _ (by norm_num)
    have h2 : (2 : K) ^ E ≠ 0 := pow_ne_zero _ (by norm_num)
    rw [zpow_neg, zpow_neg, zpow_natCast, zpow_natCast] at heq
    field_simp at heq
    exact_mod_cast heq
  have hdvd : 5 ^ k ∣ d := by
    have hcop : Nat.Coprime (5 ^ k) (2 ^ E) := Nat.Coprime.pow k E (by decide)
    refine hcop.dvd_of_dvd_mul_right ?_
    rw [hnat, show (10 : ℕ) = 5 * 2 from rfl, Nat.mul_pow, Nat.mul_assoc]
    exact Dvd.intro _ rfl
  have hle : 5 ^ k ≤ d := Nat.le_of_dvd hpos hdvd
  have hpow : 5 ^ T < 5 ^ k := Nat.pow_lt_pow_right (by decide) (by omega)
  omega

/-! ### Floating-point formats -/

/-- A floating-point format: numbers `m * radix ^ e` with `m` of at most `precision` digits, and exponents between two
bounds. -/
structure Format where
  radix : ℕ
  precision : ℕ
  minExponent : ℤ
  maxExponent : ℤ
  one_lt_radix : 1 < radix
  precision_pos : 0 < precision
  min_le_max : minExponent ≤ maxExponent

namespace Format

variable (F : Format)

/-- The way in which a number is represented: with all digits in use, unless the exponent is the smallest one. -/
structure Canonical (m : ℕ) (e : ℤ) : Prop where
  digits : m < F.radix ^ F.precision
  lower : F.minExponent ≤ e
  upper : e ≤ F.maxExponent
  normal : F.radix ^ (F.precision - 1) ≤ m ∨ e = F.minExponent

instance (m : ℕ) (e : ℤ) : Decidable (F.Canonical m e) :=
  decidable_of_iff (m < F.radix ^ F.precision ∧ F.minExponent ≤ e ∧ e ≤ F.maxExponent ∧
    (F.radix ^ (F.precision - 1) ≤ m ∨ e = F.minExponent))
    ⟨fun h => ⟨h.1, h.2.1, h.2.2.1, h.2.2.2⟩, fun h => ⟨h.digits, h.lower, h.upper, h.normal⟩⟩

/-- The number that is represented. -/
def toField (K : Type*) [Field K] (m : ℕ) (e : ℤ) : K := m * (F.radix : K) ^ e

/-- The nearest number of the format, unless it is too large. -/
def nearest (q : K) : Option (ℕ × ℤ) :=
  if q = 0 then some (0, F.minExponent)
  else
    let e := max (Int.log F.radix q - F.precision + 1) F.minExponent
    let m := nearestEven (q / (F.radix : K) ^ e)
    let (m, e) := if m = F.radix ^ F.precision then (F.radix ^ (F.precision - 1), e + 1) else (m, e)
    if e ≤ F.maxExponent then some (m, e) else none

variable {F}

theorem radix_pos : (0 : K) < F.radix := by
  have : 0 < F.radix := by
    have := F.one_lt_radix
    omega
  exact_mod_cast this

theorem toField_pos {m : ℕ} (hm : 0 < m) (e : ℤ) : 0 < F.toField K m e :=
  mul_pos (by exact_mod_cast hm) (zpow_pos radix_pos e)

/-- The unit `radix ^ e`, times all the digits. -/
theorem zpow_precision (e : ℤ) (k : ℕ) : (F.radix : K) ^ k * (F.radix : K) ^ e = (F.radix : K) ^ (e + k) := by
  rw [← zpow_natCast, ← zpow_add₀ radix_pos.ne', add_comm]

omit [IsStrictOrderedRing K] in
/-- Rounding, once the exponent is known. -/
theorem nearest_of_exponent {q : K} (hq : 0 < q) {e : ℤ}
    (he : max (Int.log F.radix q - F.precision + 1) F.minExponent = e) {m : ℕ}
    (hm : nearestEven (q / (F.radix : K) ^ e) = m) :
    F.nearest q =
      if m = F.radix ^ F.precision then
        if e + 1 ≤ F.maxExponent then some (F.radix ^ (F.precision - 1), e + 1) else none
      else if e ≤ F.maxExponent then some (m, e) else none := by
  unfold nearest
  rw [if_neg hq.ne']
  simp only [he, hm]
  by_cases h : m = F.radix ^ F.precision
  · simp only [if_pos h]
  · simp only [if_neg h]

/-- What a number is rounded to is represented in the canonical way. -/
theorem nearest_canonical {q : K} (hq : 0 ≤ q) {m : ℕ} {e : ℤ} (h : F.nearest q = some (m, e)) : F.Canonical m e := by
  have hp := F.precision_pos
  rcases hq.eq_or_lt with rfl | hq
  · rw [nearest, if_pos rfl] at h
    obtain ⟨rfl, rfl⟩ := Prod.mk.inj (Option.some.inj h)
    exact ⟨pow_pos (by have := F.one_lt_radix; omega) _, le_refl _, F.min_le_max, .inr rfl⟩
  · have hr : (0 : K) < F.radix := radix_pos
    have hround := nearest_of_exponent (F := F) hq rfl rfl
    generalize hx : max (Int.log F.radix q - F.precision + 1) F.minExponent = x at hround
    have hunit : (0 : K) < (F.radix : K) ^ x := zpow_pos hr _
    have hle : nearestEven (q / (F.radix : K) ^ x) ≤ F.radix ^ F.precision := by
      refine nearestEven_le (div_pos hq hunit).le ?_
      rw [div_le_iff₀ hunit, Nat.cast_pow, zpow_precision]
      exact ((Int.lt_zpow_iff_log_lt F.one_lt_radix hq).2 (by omega)).le
    have hge : F.radix ^ (F.precision - 1) ≤ nearestEven (q / (F.radix : K) ^ x) ∨ x = F.minExponent := by
      rcases (le_max_right (Int.log F.radix q - F.precision + 1) F.minExponent).eq_or_lt with hmin | hmin
      · exact .inr (hx ▸ hmin.symm)
      · left
        refine le_nearestEven ?_
        rw [le_div_iff₀ hunit, Nat.cast_pow, zpow_precision]
        exact (Int.zpow_le_iff_le_log F.one_lt_radix hq).2 (by omega)
    rw [hround] at h
    split at h
    · split at h
      · obtain ⟨rfl, rfl⟩ := Prod.mk.inj (Option.some.inj h)
        exact ⟨Nat.pow_lt_pow_right F.one_lt_radix (by omega), by omega, ‹_›, .inl (le_refl _)⟩
      · cases h
    · rename_i hne
      split at h
      · obtain ⟨rfl, rfl⟩ := Prod.mk.inj (Option.some.inj h)
        exact ⟨by omega, by omega, ‹_›, hge⟩
      · cases h

section Close

variable {m : ℕ} {e : ℤ} (h : F.Canonical m e) (hm : 0 < m) {q : K}
  (hclose : |q - F.toField K m e| * (2 * (F.radix : K) ^ F.precision) < F.toField K m e)

include h hclose

/-- The distance is less than half a unit. -/
private theorem lt_half_unit : |q - F.toField K m e| < (F.radix : K) ^ e / 2 := by
  have hunit : (0 : K) < (F.radix : K) ^ e := zpow_pos radix_pos e
  have hpow : (0 : K) < (F.radix : K) ^ F.precision := pow_pos radix_pos _
  have hdigits : (m : K) + 1 ≤ (F.radix : K) ^ F.precision := by exact_mod_cast h.digits
  have hlt : |q - F.toField K m e| * (2 * (F.radix : K) ^ F.precision) <
      (F.radix : K) ^ e / 2 * (2 * (F.radix : K) ^ F.precision) := by
    calc |q - F.toField K m e| * (2 * (F.radix : K) ^ F.precision)
        < m * (F.radix : K) ^ e := hclose
      _ < (F.radix : K) ^ F.precision * (F.radix : K) ^ e := mul_lt_mul_of_pos_right (by linarith) hunit
      _ = (F.radix : K) ^ e / 2 * (2 * (F.radix : K) ^ F.precision) := by ring
  exact lt_of_mul_lt_mul_right hlt (by positivity)

private theorem close_lt : q < (F.radix : K) ^ (e + F.precision) := by
  have hdigits : (m : K) + 1 ≤ (F.radix : K) ^ F.precision := by exact_mod_cast h.digits
  have hunit : (0 : K) < (F.radix : K) ^ e := zpow_pos radix_pos e
  have hmul := mul_le_mul_of_nonneg_right hdigits hunit.le
  have hv : F.toField K m e = m * (F.radix : K) ^ e := rfl
  rw [add_mul, one_mul, ← hv, zpow_precision] at hmul
  linarith [(abs_lt.1 (lt_half_unit h hclose)).2]

/-- A close number has fewer digits only just below a power of the radix. -/
private theorem eq_pow_of_lt (hbelow : q < (F.radix : K) ^ (e + F.precision - 1)) (hmin : e ≠ F.minExponent) :
    m = F.radix ^ (F.precision - 1) := by
  have hunit : (0 : K) < (F.radix : K) ^ e := zpow_pos radix_pos e
  have hnormal : F.radix ^ (F.precision - 1) ≤ m := h.normal.resolve_right hmin
  by_contra hne
  have hgt : ((F.radix : K) ^ (F.precision - 1)) + 1 ≤ m := by
    have : F.radix ^ (F.precision - 1) + 1 ≤ m := by omega
    exact_mod_cast this
  have hmul := mul_le_mul_of_nonneg_right hgt hunit.le
  have hexp : e + ((F.precision - 1 : ℕ) : ℤ) = e + F.precision - 1 := by
    have := F.precision_pos
    omega
  have hv : F.toField K m e = m * (F.radix : K) ^ e := rfl
  rw [add_mul, one_mul, zpow_precision, hexp, ← hv] at hmul
  linarith [(abs_lt.1 (lt_half_unit h hclose)).1]

include hm

private theorem close_pos : 0 < q := by
  have hunit : (0 : K) < (F.radix : K) ^ e := zpow_pos radix_pos e
  have hm1 : (1 : K) ≤ m := by exact_mod_cast hm
  have hv : (F.radix : K) ^ e ≤ F.toField K m e := le_mul_of_one_le_left hunit.le hm1
  linarith [(abs_lt.1 (lt_half_unit h hclose)).1]

/-- The exponent is found again. -/
private theorem nearest_of_le (hlow : (F.radix : K) ^ (e + F.precision - 1) ≤ q ∨ e = F.minExponent) :
    F.nearest q = some (m, e) := by
  have hq : 0 < q := close_pos h hm hclose
  have hunit : (0 : K) < (F.radix : K) ^ e := zpow_pos radix_pos e
  have he : max (Int.log F.radix q - F.precision + 1) F.minExponent = e := by
    have hlt : Int.log F.radix q < e + F.precision :=
      (Int.lt_zpow_iff_log_lt F.one_lt_radix hq).1 (close_lt h hclose)
    have hmin := h.lower
    rcases hlow with hlow | hlow
    · have hge := (Int.zpow_le_iff_le_log F.one_lt_radix hq).1 hlow
      omega
    · omega
  have hround : nearestEven (q / (F.radix : K) ^ e) = m := by
    refine nearestEven_eq (div_pos hq hunit).le ?_
    have hsub : q / (F.radix : K) ^ e - m = (q - F.toField K m e) / (F.radix : K) ^ e := by
      rw [toField, sub_div, mul_div_cancel_right₀ _ hunit.ne']
    rw [hsub, abs_div, abs_of_pos hunit, div_lt_iff₀ hunit]
    linarith [lt_half_unit h hclose]
  rw [nearest_of_exponent hq he hround, if_neg h.digits.ne, if_pos h.upper]

/-- There the units are smaller, and all digits are rounded up. -/
private theorem nearest_of_lt (hbelow : q < (F.radix : K) ^ (e + F.precision - 1)) (hmin : e ≠ F.minExponent) :
    F.nearest q = some (m, e) := by
  have hr : (0 : K) < F.radix := radix_pos
  have hr2 : (2 : K) ≤ F.radix := by exact_mod_cast F.one_lt_radix
  have hp := F.precision_pos
  have hq : 0 < q := close_pos h hm hclose
  have hunit : (0 : K) < (F.radix : K) ^ (e - 1) := zpow_pos hr _
  have hmeq := eq_pow_of_lt h hclose hbelow hmin
  have hv : F.toField K m e = (F.radix : K) ^ (e + F.precision - 1) := by
    rw [toField, hmeq, Nat.cast_pow, zpow_precision]
    congr 1
    omega
  have hvunit : F.toField K m e = (F.radix : K) ^ F.precision * (F.radix : K) ^ (e - 1) := by
    rw [hv, zpow_precision]
    congr 1
    omega
  have hhalf : |q - F.toField K m e| < (F.radix : K) ^ (e - 1) / 2 := by
    have hlt : |q - F.toField K m e| * (2 * (F.radix : K) ^ F.precision) <
        (F.radix : K) ^ (e - 1) / 2 * (2 * (F.radix : K) ^ F.precision) := by
      refine hclose.trans_eq ?_
      rw [hvunit]
      ring
    exact lt_of_mul_lt_mul_right hlt (by positivity)
  have hge : (F.radix : K) ^ (e + F.precision - 2) ≤ q := by
    have hstep : (F.radix : K) ^ (e + F.precision - 1) = F.radix * (F.radix : K) ^ (e + F.precision - 2) := by
      rw [← zpow_one_add₀ hr.ne']
      congr 1
      omega
    have hle : (F.radix : K) ^ (e - 1) ≤ (F.radix : K) ^ (e + F.precision - 2) :=
      zpow_le_zpow_right₀ (by linarith) (by omega)
    have hdouble : 2 * (F.radix : K) ^ (e + F.precision - 2) ≤ (F.radix : K) ^ (e + F.precision - 1) := by
      rw [hstep]
      exact mul_le_mul_of_nonneg_right hr2 (zpow_pos hr _).le
    rw [hv] at hhalf
    linarith [(abs_lt.1 hhalf).1]
  have he : max (Int.log F.radix q - F.precision + 1) F.minExponent = e - 1 := by
    have hlog : Int.log F.radix q = e + F.precision - 2 :=
      log_eq F.one_lt_radix hq hge ((by omega : e + F.precision - 2 + 1 = e + F.precision - 1) ▸ hbelow)
    have := h.lower
    omega
  have hround : nearestEven (q / (F.radix : K) ^ (e - 1)) = F.radix ^ F.precision := by
    refine nearestEven_eq (div_pos hq hunit).le ?_
    have hsub : q / (F.radix : K) ^ (e - 1) - ((F.radix ^ F.precision : ℕ) : K) =
        (q - F.toField K m e) / (F.radix : K) ^ (e - 1) := by
      rw [hvunit, sub_div, mul_div_cancel_right₀ _ hunit.ne', Nat.cast_pow]
    rw [hsub, abs_div, abs_of_pos hunit, div_lt_iff₀ hunit]
    linarith
  have hupper := h.upper
  rw [nearest_of_exponent hq he hround, if_pos rfl, if_pos (by omega), hmeq]
  congr 2
  omega

/-- A number that is closer to one of the format than half the distance to the next one is rounded to it. -/
theorem nearest_eq : F.nearest q = some (m, e) := by
  by_cases hlow : (F.radix : K) ^ (e + F.precision - 1) ≤ q
  · exact nearest_of_le h hm hclose (.inl hlow)
  · by_cases hmin : e = F.minExponent
    · exact nearest_of_le h hm hclose (.inr hmin)
    · exact nearest_of_lt h hm hclose (not_le.1 hlow) hmin

end Close

/-- Rounded to enough digits in another radix, and back. -/
theorem nearest_scientific {b n : ℕ} (hb : 1 < b) (hn : 0 < n) (henough : F.radix ^ F.precision < b ^ (n - 1)) {m : ℕ}
    {e : ℤ} (h : F.Canonical m e) (hm : 0 < m) :
    F.nearest (((scientific b n (F.toField K m e)).1 : K) * (b : K) ^ (scientific b n (F.toField K m e)).2) =
      some (m, e) := by
  have hpos : 0 < F.toField K m e := toField_pos hm e
  have hdist := abs_scientific_sub_le hb hn hpos
  refine nearest_eq h hm ?_
  have hlt : (F.radix : K) ^ F.precision < (b : K) ^ (n - 1) := by exact_mod_cast henough
  rcases (abs_nonneg (((scientific b n (F.toField K m e)).1 : K) * (b : K) ^ (scientific b n (F.toField K m e)).2 -
    F.toField K m e)).eq_or_lt with hzero | hfar
  · rw [← hzero, zero_mul]
    exact hpos
  · refine lt_of_lt_of_le ?_ hdist
    exact mul_lt_mul_of_pos_left (by linarith) hfar

end Format

end Rounding
