import Mathlib.Data.List.DropRight
import Mathlib.Data.Rat.Floor
import TaoPQ.Integers
import TaoPQ.Lib.Rounding

/-!
# Floating-point numbers as text

How `parameter_traits` writes `float`, `double` and `long double` (`internal::snprintf` into the buffer of
`buffer_helper`), and how `result_traits` reads them (`internal::strtof`, `strtod` and `strtold` of `strtox.cpp`), over
exact models of `std::snprintf` with `%g` and of `std::strtod` and its siblings in the C locale.  Numbers are rational,
and both functions round to the nearest number, ties to even.
-/

namespace TaoPQ

open Byte Decimal

/-- `float`, `double` and `long double`: the single, double and extended formats of IEEE 754. -/
inductive FloatType where
  | float
  | double
  | longDouble
  deriving DecidableEq, Repr

namespace FloatType

def format : FloatType → Rounding.Format
  | float => ⟨2, 24, -149, 104, by decide, by decide, by decide⟩
  | double => ⟨2, 53, -1074, 971, by decide, by decide, by decide⟩
  | longDouble => ⟨2, 64, -16445, 16320, by decide, by decide, by decide⟩

/-- The precision of `%.9g`, `%.17g` and `%.21Lg`. -/
def digits : FloatType → Nat
  | float => 9
  | double => 17
  | longDouble => 21

/-- `message< T >` -/
def message : FloatType → String
  | float => "tao::pq::internal::strtof() failed for input: "
  | double => "tao::pq::internal::strtod() failed for input: "
  | longDouble => "tao::pq::internal::strtold() failed for input: "

end FloatType

/-- A value of such a type, finite ones as sign, digits and exponent. -/
inductive FloatValue (t : FloatType) where
  | finite (negative : Bool) (m : Nat) (e : Int) (h : t.format.Canonical m e)
  | infinite (negative : Bool)
  | nan

namespace FloatValue

variable {t : FloatType}

/-- Neither zero nor normal: the digits do not reach the leading one. -/
def isSubnormal : FloatValue t → Bool
  | finite _ m _ _ => 0 < m && m < 2 ^ (t.format.precision - 1)
  | infinite _ => false
  | nan => false

/-- `v == 0` -/
def isZero : FloatValue t → Bool
  | finite _ m _ _ => m == 0
  | infinite _ => false
  | nan => false

end FloatValue

/-! ### `std::snprintf` -/

namespace Printf

/-- At least `k` digits. -/
def pad (k : Nat) (ds : Bytes) : Bytes := List.replicate (k - ds.length) 48 ++ ds

/-- `%.{k}f`: the digits before and behind the point. -/
def fixed (k : Nat) (q : ℚ) : Bytes × Bytes :=
  let ds := pad (k + 1) (decimal (Rounding.nearestEven (q * 10 ^ k)))
  (ds.take (ds.length - k), ds.drop (ds.length - k))

/-- `%.{k}e`: the digit before and those behind the point, and the exponent. -/
def exponential (k : Nat) (q : ℚ) : Bytes × Bytes × Int :=
  if q = 0 then ([48], List.replicate k 48, 0)
  else
    let (d, x) := Rounding.scientific 10 (k + 1) q
    ((decimal d).take 1, (decimal d).drop 1, x + k)

/-- The exponent, with at least two digits. -/
def exponentText (x : Int) : Bytes := 101 :: (if x < 0 then 45 else 43) :: pad 2 (decimal x.natAbs)

/-- Trailing zeros behind the point are removed, and the point where nothing is left behind it. -/
def point (int frac : Bytes) : Bytes :=
  let frac := frac.rdropWhile (· == 48)
  if frac = [] then int else int ++ 46 :: frac

/-- `%.{p}g` of a number that is not negative. -/
def general (p : Nat) (q : ℚ) : Bytes :=
  let (int, frac, x) := exponential (p - 1) q
  if -4 ≤ x ∧ x < p then
    let (int, frac) := fixed (p - 1 - x).toNat q
    point int frac
  else point int frac ++ exponentText x

end Printf

/-- `internal::snprintf`, the text without its end. -/
def snprintf {t : FloatType} : FloatValue t → Bytes
  | .finite negative m e _ =>
    let text := Printf.general t.digits (t.format.toField ℚ m e)
    if negative then 45 :: text else text
  | .nan => ascii "NAN"
  | .infinite negative => if negative then ascii "-INF" else ascii "INF"

/-- The constructor of `parameter_traits< float >`, of `parameter_traits< double >` and of
`parameter_traits< long double >`. -/
def Buffer.floatHelper {ε : Type} {t : FloatType} (v : FloatValue t) : Exec Bytes ε Unit := do
  write (snprintf v)
  Bytea.put (snprintf v).length nul

/-! ### `std::strtof`, `std::strtod`, `std::strtold` -/

namespace Strtod

/-- What the text of a number stands for, but for its sign. -/
inductive Magnitude where
  | number (q : ℚ) (hq : 0 ≤ q)
  | infinity
  | nan

def toLower (b : UInt8) : UInt8 := if 65 ≤ b ∧ b ≤ 90 then b + 32 else b

def isHexDigit (b : UInt8) : Bool := isDigit b || (97 ≤ toLower b && toLower b ≤ 102)

/-- The number that hexadecimal digits stand for. -/
def hexValue (ds : Bytes) : Nat :=
  ds.foldl (fun n b => 16 * n + if isDigit b then b.toNat - 48 else (toLower b).toNat - 87) 0

/-- A sign, if there is one. -/
def sign : Bytes → Bool × Bytes
  | 45 :: s => (true, s)
  | 43 :: s => (false, s)
  | s => (false, s)

/-- What comes behind a word, in upper or lower case letters. -/
def word (w s : Bytes) : Option Bytes := if (s.take w.length).map toLower = w then some (s.drop w.length) else none

/-- The digits before and behind the point, and the rest. -/
def digits (p : UInt8 → Bool) (s : Bytes) : Bytes × Bytes × Bytes :=
  match s.dropWhile p with
  | 46 :: rest => (s.takeWhile p, rest.takeWhile p, rest.dropWhile p)
  | rest => (s.takeWhile p, [], rest)

/-- The exponent behind a letter, `0` if there is none. -/
def exponent (letter : UInt8) (s : Bytes) : Int × Bytes :=
  match s with
  | [] => (0, [])
  | c :: s' =>
    let (negative, rest) := sign s'
    let ds := rest.takeWhile isDigit
    if toLower c ≠ letter ∨ ds = [] then (0, s)
    else (if negative then -(decimalValue ds : Int) else decimalValue ds, rest.dropWhile isDigit)

/-- A decimal number. -/
def decimalNumber (s : Bytes) : Option (Magnitude × Bytes) :=
  let (int, frac, rest) := digits isDigit s
  if int = [] ∧ frac = [] then none
  else
    let (x, rest) := exponent 101 rest
    some (.number (decimalValue (int ++ frac) * 10 ^ (x - frac.length))
      (mul_nonneg (Nat.cast_nonneg _) (zpow_nonneg (by decide) _)), rest)

/-- A hexadecimal number, behind `0x`. -/
def hexNumber (s : Bytes) : Option (Magnitude × Bytes) :=
  let (int, frac, rest) := digits isHexDigit s
  if int = [] ∧ frac = [] then none
  else
    let (x, rest) := exponent 112 rest
    some (.number (hexValue (int ++ frac) * 2 ^ (x - 4 * frac.length))
      (mul_nonneg (Nat.cast_nonneg _) (zpow_nonneg (by decide) _)), rest)

/-- What may stand in parentheses behind `nan`. -/
def nanChars (s : Bytes) : Bytes :=
  let isNanChar (b : UInt8) : Bool := isDigit b || (97 ≤ toLower b && toLower b ≤ 122) || b == 95
  match s with
  | 40 :: s' =>
    match s'.dropWhile isNanChar with
    | 41 :: rest => rest
    | _ => s
  | _ => s

/-- The longest beginning of the text that is a number without a sign, and the rest. -/
def magnitude (s : Bytes) : Option (Magnitude × Bytes) :=
  match word (ascii "infinity") s, word (ascii "inf") s, word (ascii "nan") s with
  | some rest, _, _ => some (.infinity, rest)
  | none, some rest, _ => some (.infinity, rest)
  | none, none, some rest => some (.nan, nanChars rest)
  | none, none, none =>
    match (word (ascii "0x") s).bind hexNumber with
    | some x => some x
    | none => decimalNumber s

/-- What `strtod` leaves behind: the value that is returned, where `endptr` points to, and whether `errno` is
`ERANGE`. -/
structure Result (t : FloatType) where
  value : FloatValue t
  rest : Bytes
  erange : Bool

variable (t : FloatType) (reports : Bool)

/-- The nearest value.  The result overflows when there is none, and it underflows when it is neither exact nor a
normal number: whether `errno` becomes `ERANGE` then is up to the implementation, and POSIX says that it does. -/
def toValue (negative : Bool) (q : ℚ) (hq : 0 ≤ q) : FloatValue t × Bool :=
  match h : t.format.nearest q with
  | none => (.infinite negative, true)
  | some (m, e) =>
    (.finite negative m e (t.format.nearest_canonical hq h),
      reports && m < 2 ^ (t.format.precision - 1) && t.format.toField ℚ m e ≠ q)

/-- `std::strtof`, `std::strtod` and `std::strtold` -/
def strto (input : Bytes) : Result t :=
  let (negative, s) := sign (input.dropWhile isSpace)
  match magnitude s with
  | none => ⟨(toValue t reports false 0 (le_refl 0)).1, input, false⟩
  | some (.infinity, rest) => ⟨.infinite negative, rest, false⟩
  | some (.nan, rest) => ⟨.nan, rest, false⟩
  | some (.number q hq, rest) =>
    let (value, erange) := toValue t reports negative q hq
    ⟨value, rest, erange⟩

end Strtod

/-- `std::runtime_error` and the two classes derived from it. -/
inductive StrtoxError where
  | runtimeError (what : Bytes)
  | underflowError (what : Bytes)
  | overflowError (what : Bytes)
  deriving DecidableEq

/-- `internal::str_to_floating_point`, which is `internal::strtof`, `internal::strtod` and `internal::strtold`. -/
def strToFloatingPoint (t : FloatType) (reports : Bool) (input : Bytes) : Except StrtoxError (FloatValue t) :=
  let what := ascii t.message ++ input
  if input.head?.all isSpace then .error (.runtimeError what)
  else
    let r := Strtod.strto t reports input
    if r.erange = false then
      if r.rest = [] then .ok r.value else .error (.runtimeError what)
    else if r.value.isZero then .error (.underflowError what)
    else .error (.overflowError what)


/-! ### What is written -/

namespace Printf

theorem decimalValue_pad (k : Nat) (ds : Bytes) : decimalValue (pad k ds) = decimalValue ds := decimalValue_zeros _ ds

theorem isDigit_pad {k : Nat} {ds : Bytes} (hds : ∀ b ∈ ds, isDigit b = true) : ∀ b ∈ pad k ds, isDigit b = true := by
  intro b hb
  rcases List.mem_append.1 hb with hb | hb
  · rw [List.eq_of_mem_replicate hb]
    rfl
  · exact hds b hb

theorem length_pad (k : Nat) (ds : Bytes) : (pad k ds).length = max k ds.length := by
  rw [pad, List.length_append, List.length_replicate]
  omega

/-- Digits before and behind the point, and an exponent, that stand for a number. -/
structure Spells (int frac : Bytes) (x : Int) (v : ℚ) : Prop where
  ne_nil : int ≠ []
  int_digits : ∀ b ∈ int, isDigit b = true
  frac_digits : ∀ b ∈ frac, isDigit b = true
  value : v = decimalValue (int ++ frac) * 10 ^ (x - frac.length)

/-- The trailing zeros make no difference. -/
theorem Spells.trim {int frac : Bytes} {x : Int} {v : ℚ} (h : Spells int frac x v) :
    Spells int (frac.rdropWhile (· == 48)) x v := by
  obtain ⟨zeros, hzeros⟩ : ∃ k, frac = frac.rdropWhile (· == 48) ++ List.replicate k 48 := by
    refine ⟨(frac.rtakeWhile (· == 48)).length, ?_⟩
    have hall : ∀ b ∈ frac.rtakeWhile (· == 48), b = 48 := fun b hb => by
      simpa using List.mem_rtakeWhile_imp hb
    rw [← List.eq_replicate_of_mem hall, List.rdropWhile_append_rtakeWhile]
  generalize frac.rdropWhile (· == 48) = kept at hzeros
  subst hzeros
  refine ⟨h.ne_nil, h.int_digits, fun b hb => h.frac_digits b (List.mem_append_left _ hb), ?_⟩
  rw [h.value, ← List.append_assoc, decimalValue_append_zeros, List.length_append, List.length_replicate, Nat.cast_mul,
    Nat.cast_pow, Nat.cast_ofNat]
  have hexp : (x - ((kept.length + zeros : ℕ) : ℤ)) = (x - kept.length) - (zeros : ℤ) := by
    push_cast
    ring
  rw [hexp, zpow_sub₀ (by decide), zpow_natCast]
  field_simp

/-- The digits of `%f`. -/
theorem fixed_spells (k : Nat) (q : ℚ) :
    Spells (fixed k q).1 (fixed k q).2 0 (Rounding.nearestEven (q * 10 ^ k) * 10 ^ (-(k : ℤ))) := by
  generalize hn : Rounding.nearestEven (q * 10 ^ k) = n
  have hdigits : ∀ b ∈ pad (k + 1) (decimal n), isDigit b = true := isDigit_pad fun b => isDigit_of_mem_decimal
  have hlen : k + 1 ≤ (pad (k + 1) (decimal n)).length := by
    rw [length_pad]
    exact le_max_left _ _
  have hfixed : fixed k q = ((pad (k + 1) (decimal n)).take ((pad (k + 1) (decimal n)).length - k),
      (pad (k + 1) (decimal n)).drop ((pad (k + 1) (decimal n)).length - k)) := by
    unfold fixed
    rw [hn]
  rw [hfixed]
  refine ⟨fun h => ?_, fun b hb => hdigits b (List.mem_of_mem_take hb),
    fun b hb => hdigits b (List.mem_of_mem_drop hb), ?_⟩
  · have hzero := congrArg List.length h
    rw [List.length_take] at hzero
    simp only [List.length_nil] at hzero
    omega
  · rw [List.take_append_drop, decimalValue_pad, decimalValue_decimal, List.length_drop]
    congr 2
    omega

/-- What is printed for a number: the nearest one with so many digits. -/
def printed (p : Nat) (q : ℚ) : ℚ :=
  if q = 0 then 0
  else (Rounding.scientific 10 p q).1 * 10 ^ (Rounding.scientific 10 p q).2

theorem exponential_eq {p : Nat} (hp : 0 < p) {q : ℚ} (hq : 0 < q) :
    exponential (p - 1) q = ((decimal (Rounding.scientific 10 p q).1).take 1,
      (decimal (Rounding.scientific 10 p q).1).drop 1, (Rounding.scientific 10 p q).2 + (p - 1 : ℕ)) := by
  unfold exponential
  rw [if_neg hq.ne', show p - 1 + 1 = p by omega]

/-- The digits of `%e`. -/
theorem exponential_spells {p : Nat} (hp : 0 < p) {q : ℚ} (hq : 0 < q) :
    Spells (exponential (p - 1) q).1 (exponential (p - 1) q).2.1 (exponential (p - 1) q).2.2 (printed p q) := by
  obtain ⟨hlow, hhigh⟩ := Rounding.scientific_bounds (b := 10) (by decide) hp hq
  have hp' : p - 1 + 1 = p := by omega
  rw [exponential_eq hp hq, printed, if_neg hq.ne']
  generalize Rounding.scientific 10 p q = d at *
  have hlen : (decimal d.1).length = p := by
    have h := length_decimal (k := p - 1) hlow (by rw [hp']; exact hhigh)
    omega
  have hdigits : ∀ b ∈ decimal d.1, isDigit b = true := fun b => isDigit_of_mem_decimal
  refine ⟨fun h => ?_, fun b hb => hdigits b (List.mem_of_mem_take hb),
    fun b hb => hdigits b (List.mem_of_mem_drop hb), ?_⟩
  · have hzero := congrArg List.length h
    rw [List.length_take] at hzero
    simp only [List.length_nil] at hzero
    omega
  · rw [List.take_append_drop, decimalValue_decimal, List.length_drop, hlen]
    congr 2
    show d.2 = d.2 + (p - 1 : ℕ) - (p - 1 : ℕ)
    omega

end Printf

/-! ### What is read -/

namespace Strtod

open Printf (Spells)

/-- What may follow the digits of a number: nothing, or an exponent. -/
structure Tail (tail : Bytes) (x : Int) : Prop where
  head : ∀ b, tail.head? = some b → isDigit b = false ∧ b ≠ 46
  exponent : exponent 101 tail = (x, [])

theorem Tail.nil : Tail [] 0 := ⟨by simp, rfl⟩

theorem Tail.exponentText (x : Int) : Tail (Printf.exponentText x) x := by
  refine ⟨fun b hb => ?_, ?_⟩
  · obtain rfl := Option.some.inj hb
    decide
  · have hdigits : ∀ b ∈ Printf.pad 2 (decimal x.natAbs), isDigit b = true :=
      Printf.isDigit_pad fun b => isDigit_of_mem_decimal
    have hne : Printf.pad 2 (decimal x.natAbs) ≠ [] := by
      have hlen := Printf.length_pad 2 (decimal x.natAbs)
      intro h
      rw [h, List.length_nil] at hlen
      omega
    have htake : (Printf.pad 2 (decimal x.natAbs)).takeWhile isDigit = Printf.pad 2 (decimal x.natAbs) :=
      List.takeWhile_eq_self_iff.2 hdigits
    have hdrop : (Printf.pad 2 (decimal x.natAbs)).dropWhile isDigit = [] := List.dropWhile_eq_nil_iff.2 hdigits
    have hlower : toLower 101 = 101 := by decide
    by_cases hx : x < 0
    · rw [Printf.exponentText, if_pos hx]
      simp only [Strtod.exponent, sign, htake, hdrop, hlower]
      rw [if_neg (by simp [hne]), if_pos trivial, Printf.decimalValue_pad, decimalValue_decimal]
      congr 1
      omega
    · rw [Printf.exponentText, if_neg hx]
      simp only [Strtod.exponent, sign, htake, hdrop, hlower]
      rw [if_neg (by simp [hne]), if_neg (by simp), Printf.decimalValue_pad, decimalValue_decimal]
      congr 1
      omega

theorem digits_of_head {p : UInt8 → Bool} {s tail : Bytes} (hs : ∀ b ∈ s, p b = true)
    (htail : ∀ b, tail.head? = some b → p b = false ∧ b ≠ 46) : digits p (s ++ tail) = (s, [], tail) := by
  have hdrop : (s ++ tail).dropWhile p = tail := by
    rw [List.dropWhile_append_of_pos hs]
    cases tail with
    | nil => rfl
    | cons b tail => rw [List.dropWhile_cons_of_neg (by simp [(htail b rfl).1])]
  have htake : (s ++ tail).takeWhile p = s := by
    rw [List.takeWhile_append_of_pos hs]
    cases tail with
    | nil => simp
    | cons b tail => rw [List.takeWhile_cons_of_neg (by simp [(htail b rfl).1]), List.append_nil]
  unfold digits
  rw [hdrop, htake]
  split
  · rename_i rest
    exact absurd rfl (htail 46 rfl).2
  · rfl

/-- A number in the form in which it is printed. -/
theorem decimalNumber_point {int frac tail : Bytes} {x : Int} {v : ℚ} (h : Spells int frac x v) (htail : Tail tail x) :
    ∃ hv, decimalNumber (Printf.point int frac ++ tail) = some (.number v hv, []) := by
  have htrim := h.trim
  generalize hkept : frac.rdropWhile (· == 48) = kept at htrim
  have hdigits : digits isDigit (Printf.point int frac ++ tail) = (int, kept, tail) := by
    unfold Printf.point
    simp only [hkept]
    by_cases hnil : kept = []
    · rw [if_pos hnil, hnil, digits_of_head h.int_digits htail.head]
    · have hpoint : ∀ b, (46 :: (kept ++ tail)).head? = some b → isDigit b = false := by
        intro b hb
        obtain rfl := Option.some.inj hb
        rfl
      have htail' := fun b hb => (htail.head b hb).1
      rw [if_neg hnil, List.append_assoc, List.cons_append]
      unfold digits
      rw [dropWhile_digits h.int_digits hpoint, takeWhile_digits h.int_digits hpoint]
      simp only [dropWhile_digits htrim.frac_digits htail', takeWhile_digits htrim.frac_digits htail']
  have hvalue := htrim.value
  have hv : 0 ≤ v := by
    rw [hvalue]
    exact mul_nonneg (Nat.cast_nonneg _) (zpow_nonneg (by decide) _)
  refine ⟨hv, ?_⟩
  subst hvalue
  unfold decimalNumber
  simp only [hdigits]
  rw [if_neg fun hnil => h.ne_nil hnil.1]
  simp only [htail.exponent]

end Strtod


/-! ### Numbers that are printed and read again -/

namespace Printf

open Rounding (scientific)

/-- The form of `%g`: digits that stand for the number that is printed, and an exponent where there is one. -/
structure Form (p : Nat) (q : ℚ) (int frac tail : Bytes) (x : Int) : Prop where
  text : general p q = point int frac ++ tail
  spells : Spells int frac x (printed p q)
  tail : tail = [] ∧ x = 0 ∨ tail = exponentText x

/-- With digits behind the point, `%f` has the same digits as `%e`. -/
theorem nearestEven_of_scientific {p : Nat} (hp : 0 < p) {q : ℚ} (hq : 0 < q) {k : Nat}
    (hk : (k : ℤ) = -(scientific 10 p q).2) : Rounding.nearestEven (q * 10 ^ k) = (scientific 10 p q).1 := by
  have hscale : q * 10 ^ k = q / ((10 : ℕ) : ℚ) ^ (scientific 10 p q).2 := by
    rw [← zpow_natCast, hk, zpow_neg, div_eq_mul_inv, Nat.cast_ofNat]
  rw [hscale, ← Rounding.scientific_fst (b := 10) (by decide) hp hq]

theorem fixed_of_scientific {p : Nat} (hp : 0 < p) {q : ℚ} (hq : 0 < q) {k : Nat}
    (hk : (k : ℤ) = -(scientific 10 p q).2) : Spells (fixed k q).1 (fixed k q).2 0 (printed p q) := by
  have h := fixed_spells k q
  rw [nearestEven_of_scientific hp hq hk, hk, neg_neg] at h
  rw [printed, if_neg hq.ne']
  exact h

theorem general_form {p : Nat} (hp : 0 < p) {q : ℚ} (hq : 0 ≤ q) : ∃ int frac tail x, Form p q int frac tail x := by
  rcases hq.eq_or_lt with rfl | hq
  · have h := fixed_spells (p - 1 - 0 : ℤ).toNat 0
    have hzero : Rounding.nearestEven (0 * 10 ^ (p - 1 - 0 : ℤ).toNat : ℚ) = 0 := by
      rw [zero_mul, ← Nat.cast_zero, Rounding.nearestEven_natCast]
    rw [hzero, Nat.cast_zero, zero_mul] at h
    refine ⟨_, _, [], 0, ⟨?_, by rw [printed, if_pos rfl]; exact h, .inl ⟨rfl, rfl⟩⟩⟩
    rw [general, exponential, if_pos rfl]
    simp only
    rw [if_pos (by omega), List.append_nil]
  · have hexp := exponential_spells hp hq
    by_cases hx : -4 ≤ (exponential (p - 1) q).2.2 ∧ (exponential (p - 1) q).2.2 < p
    · have hk : ((p - 1 - (exponential (p - 1) q).2.2 : ℤ).toNat : ℤ) = -(scientific 10 p q).2 := by
        rw [exponential_eq hp hq] at hx ⊢
        simp only at hx ⊢
        omega
      refine ⟨_, _, [], 0, ⟨?_, fixed_of_scientific hp hq hk, .inl ⟨rfl, rfl⟩⟩⟩
      rw [general]
      simp only
      rw [if_pos hx, List.append_nil]
    · refine ⟨_, _, _, _, ⟨?_, hexp, .inr rfl⟩⟩
      rw [general]
      simp only
      rw [if_neg hx]

theorem mem_point {int frac : Bytes} {b : UInt8} (hb : b ∈ point int frac) : b ∈ int ∨ b = 46 ∨ b ∈ frac := by
  unfold point at hb
  simp only at hb
  split at hb
  · exact .inl hb
  · rcases List.mem_append.1 hb with hb | hb
    · exact .inl hb
    · rcases List.mem_cons.1 hb with rfl | hb
      · exact .inr (.inl rfl)
      · exact .inr (.inr ((List.rdropWhile_prefix _ _).subset hb))

/-- The bytes of which numbers are made. -/
def numeric : Bytes := ascii "0123456789.e+-"

theorem mem_numeric_of_isDigit {b : UInt8} (hb : isDigit b = true) : b ∈ numeric := by
  have h := isDigit_iff.1 hb
  have hall : ∀ n < 256, 48 ≤ n → n ≤ 57 → UInt8.ofNat n ∈ numeric := by decide +kernel
  have hn := hall b.toNat b.toNat_lt h.1 h.2
  rwa [UInt8.ofNat_toNat] at hn

theorem mem_numeric_of_exponentText {x : Int} {b : UInt8} (hb : b ∈ exponentText x) : b ∈ numeric := by
  rcases List.mem_cons.1 hb with rfl | hb
  · decide
  rcases List.mem_cons.1 hb with rfl | hb
  · split <;> decide
  · exact mem_numeric_of_isDigit (isDigit_pad (fun _ => isDigit_of_mem_decimal) b hb)

theorem Form.mem_numeric {p : Nat} {q : ℚ} {int frac tail : Bytes} {x : Int} (h : Form p q int frac tail x) :
    ∀ b ∈ general p q, b ∈ numeric := by
  intro b hb
  rw [h.text] at hb
  rcases List.mem_append.1 hb with hb | hb
  · rcases mem_point hb with hb | rfl | hb
    · exact mem_numeric_of_isDigit (h.spells.int_digits b hb)
    · decide
    · exact mem_numeric_of_isDigit (h.spells.frac_digits b hb)
  · rcases h.tail with ⟨rfl, -⟩ | rfl
    · cases hb
    · exact mem_numeric_of_exponentText hb

/-- A number begins with a digit. -/
theorem Form.head {p : Nat} {q : ℚ} {int frac tail : Bytes} {x : Int} (h : Form p q int frac tail x) :
    ∃ d rest, general p q = d :: rest ∧ isDigit d = true := by
  obtain ⟨d, int', hint⟩ := List.exists_cons_of_ne_nil h.spells.ne_nil
  have hd : isDigit d = true := h.spells.int_digits d (hint ▸ List.mem_cons_self)
  rw [h.text, hint]
  unfold point
  simp only
  split
  · exact ⟨d, int' ++ tail, rfl, hd⟩
  · exact ⟨d, int' ++ _ ++ tail, rfl, hd⟩

/-! #### The length -/

theorem length_point_le (int frac : Bytes) : (point int frac).length ≤ int.length + 1 + frac.length := by
  have hlen : (frac.rdropWhile (· == 48)).length ≤ frac.length := (List.rdropWhile_prefix _ _).length_le
  unfold point
  simp only
  split
  · omega
  · rw [List.length_append, List.length_cons]
    omega

theorem length_fixed (k : Nat) (q : ℚ) : (fixed k q).1.length + (fixed k q).2.length =
    max (k + 1) (decimal (Rounding.nearestEven (q * 10 ^ k))).length := by
  unfold fixed
  simp only [List.length_take, List.length_drop, length_pad]
  omega

theorem length_exponentText_le {x : Int} (hx : x.natAbs < 10 ^ 4) : (exponentText x).length ≤ 6 := by
  have hlen := (length_decimal_le_iff (show 0 < 4 by decide)).2 hx
  unfold exponentText
  rw [List.length_cons, List.length_cons, length_pad]
  omega

theorem length_general_le {p : Nat} (hp : 0 < p) {q : ℚ} (hq : 0 ≤ q)
    (hx : 0 < q → ((scientific 10 p q).2 + (p - 1 : ℕ)).natAbs < 10 ^ 4) : (general p q).length ≤ p + 7 := by
  rcases hq.eq_or_lt with rfl | hq
  · have hzero : Rounding.nearestEven (0 * 10 ^ (p - 1 - 0 : ℤ).toNat : ℚ) = 0 := by
      rw [zero_mul, ← Nat.cast_zero, Rounding.nearestEven_natCast]
    have hlen := length_fixed (p - 1 - 0 : ℤ).toNat 0
    have hpoint := length_point_le (fixed (p - 1 - 0 : ℤ).toNat 0).1 (fixed (p - 1 - 0 : ℤ).toNat 0).2
    have hdec : (decimal 0).length = 1 := rfl
    rw [hzero, hdec] at hlen
    rw [general, exponential, if_pos rfl]
    simp only
    rw [if_pos (by omega)]
    omega
  · obtain ⟨hlow, hhigh⟩ := Rounding.scientific_bounds (b := 10) (by decide) hp hq
    have hdigits : (decimal (scientific 10 p q).1).length ≤ p := (length_decimal_le_iff hp).2 hhigh
    rw [general, exponential_eq hp hq]
    simp only
    split
    · rename_i hrange
      generalize hk : (p - 1 - ((scientific 10 p q).2 + (p - 1 : ℕ)) : ℤ).toNat = k
      have hk' : (k : ℤ) = -(scientific 10 p q).2 := by omega
      have hlen := length_fixed k q
      have hpoint := length_point_le (fixed k q).1 (fixed k q).2
      rw [nearestEven_of_scientific hp hq hk'] at hlen
      omega
    · have hpoint := length_point_le ((decimal (scientific 10 p q).1).take 1) ((decimal (scientific 10 p q).1).drop 1)
      have htail := length_exponentText_le (hx hq)
      rw [List.length_append]
      simp only [List.length_take, List.length_drop] at hpoint
      omega

end Printf

namespace FloatType

open Rounding (scientific)

variable (t : FloatType)

theorem digits_pos : 0 < t.digits := by cases t <;> decide

theorem radix_eq : t.format.radix = 2 := by cases t <;> rfl

/-- There are enough decimal digits to tell the values of the type apart. -/
theorem digits_enough : t.format.radix ^ t.format.precision < 10 ^ (t.digits - 1) := by cases t <;> decide +kernel

theorem minExponent_ge : -16445 ≤ t.format.minExponent := by cases t <;> decide

theorem maxExponent_le : t.format.maxExponent + t.format.precision ≤ 16384 := by cases t <;> decide

variable {t} {m : Nat} {e : Int}

theorem le_toField (hm : 0 < m) : 2 ^ e ≤ t.format.toField ℚ m e := by
  have hone : (1 : ℚ) ≤ m := by exact_mod_cast hm
  rw [Rounding.Format.toField, t.radix_eq]
  exact le_mul_of_one_le_left (zpow_pos (by decide) e).le hone

variable (h : t.format.Canonical m e)

include h

theorem toField_lt : t.format.toField ℚ m e < 2 ^ (e + t.format.precision) := by
  have hdigits : (m : ℚ) < 2 ^ t.format.precision := by
    have := h.digits
    rw [t.radix_eq] at this
    exact_mod_cast this
  have hmul := mul_lt_mul_of_pos_right hdigits (zpow_pos (show (0 : ℚ) < 2 by decide) e)
  rw [← zpow_natCast, ← zpow_add₀ (by decide), add_comm] at hmul
  rw [Rounding.Format.toField, t.radix_eq]
  exact hmul

/-- No exponent that is printed has more than four digits. -/
theorem natAbs_exponent_lt (hm : 0 < m) :
    ((scientific 10 t.digits (t.format.toField ℚ m e)).2 + (t.digits - 1 : ℕ)).natAbs < 10 ^ 4 := by
  have hpos : 0 < t.format.toField ℚ m e := Rounding.Format.toField_pos hm e
  have hlow : ((10 : ℕ) : ℚ) ^ (-5000 : ℤ) ≤ t.format.toField ℚ m e := by
    refine le_trans ?_ (le_toField hm)
    have hmin : (2 : ℚ) ^ (-16445 : ℤ) ≤ 2 ^ e :=
      zpow_le_zpow_right₀ (by decide) (le_trans t.minExponent_ge h.lower)
    have hpow : (2 : ℚ) ^ 16445 ≤ 10 ^ 5000 := by
      have hnat : 2 ^ 16445 ≤ 10 ^ 5000 := by decide +kernel
      exact_mod_cast hnat
    have hinv : (10 : ℚ) ^ (-5000 : ℤ) ≤ 2 ^ (-16445 : ℤ) := by
      rw [zpow_neg, zpow_neg]
      exact inv_anti₀ (zpow_pos (by decide) _) hpow
    exact hinv.trans hmin
  have hhigh : t.format.toField ℚ m e < ((10 : ℕ) : ℚ) ^ (5000 : ℤ) := by
    refine lt_of_lt_of_le (toField_lt h) ?_
    have hmax : (2 : ℚ) ^ (e + t.format.precision) ≤ 2 ^ (16384 : ℤ) := by
      refine zpow_le_zpow_right₀ (by decide) ?_
      have hupper := h.upper
      have hle := t.maxExponent_le
      omega
    have hpow : (2 : ℚ) ^ (16384 : ℤ) ≤ 10 ^ (5000 : ℤ) := by
      have hnat : 2 ^ 16384 ≤ 10 ^ 5000 := by decide +kernel
      exact_mod_cast hnat
    exact hmax.trans hpow
  have hge := (Int.zpow_le_iff_le_log (by decide) hpos).1 hlow
  have hlt := (Int.lt_zpow_iff_log_lt (by decide) hpos).1 hhigh
  have hdigits := t.digits_pos
  rcases Rounding.scientific_snd (b := 10) (n := t.digits) (q := t.format.toField ℚ m e) with hsnd | hsnd <;> omega

/-- A subnormal number is never printed exactly. -/
theorem printed_ne (hm : 0 < m) (hsub : m < 2 ^ (t.format.precision - 1)) :
    Printf.printed t.digits (t.format.toField ℚ m e) ≠ t.format.toField ℚ m e := by
  have hpos : 0 < t.format.toField ℚ m e := Rounding.Format.toField_pos hm e
  have he : e = t.format.minExponent := by
    refine h.normal.resolve_left fun hle => ?_
    rw [t.radix_eq] at hle
    omega
  obtain ⟨hlow, hhigh⟩ := Rounding.scientific_bounds (b := 10) (by decide) t.digits_pos hpos
  have hd : 0 < (scientific 10 t.digits (t.format.toField ℚ m e)).1 :=
    lt_of_lt_of_le (Nat.pow_pos (by decide)) hlow
  obtain ⟨E, T, hE, hT, hsmall⟩ : ∃ E T : ℕ, e = -E ∧ 10 ^ t.digits ≤ 5 ^ T ∧
      2 ^ (t.format.precision - 1) * 10 ^ T ≤ 2 ^ E := by
    cases t
    · exact ⟨149, 37, he, by decide +kernel, by decide +kernel⟩
    · exact ⟨1074, 307, he, by decide +kernel, by decide +kernel⟩
    · exact ⟨16445, 4931, he, by decide +kernel, by decide +kernel⟩
  have hfield : t.format.toField ℚ m e = m * 2 ^ (-(E : ℤ)) := by rw [Rounding.Format.toField, t.radix_eq, hE]; rfl
  have hlt : (m : ℚ) * 2 ^ (-(E : ℤ)) < 10 ^ (-(T : ℤ)) := by
    have hmT : (m : ℚ) * 10 ^ T < 2 ^ E := by
      have hnat : m * 10 ^ T < 2 ^ E :=
        lt_of_lt_of_le (Nat.mul_lt_mul_of_pos_right hsub (Nat.pow_pos (by decide))) hsmall
      exact_mod_cast hnat
    rw [zpow_neg, zpow_neg, zpow_natCast, zpow_natCast, ← div_eq_mul_inv, div_lt_iff₀ (by positivity), ← div_eq_inv_mul,
      lt_div_iff₀ (by positivity)]
    exact hmT
  rw [Printf.printed, if_neg hpos.ne']
  generalize scientific 10 t.digits (t.format.toField ℚ m e) = d at *
  rw [hfield]
  exact Rounding.decimal_ne_binary hd hhigh hT hlt

end FloatType

/-! ### The round trip -/

namespace Strtod

open Printf (general printed)

theorem word_of_head {c d : UInt8} (w rest : Bytes) (h : toLower d ≠ c) : word (c :: w) (d :: rest) = none := by
  unfold word
  rw [if_neg fun heq => h ?_]
  rw [List.length_cons, List.take_succ_cons, List.map_cons] at heq
  exact (List.cons.inj heq).1

theorem word_none {w s : Bytes} {c : UInt8} (hc : c ∈ w) (hs : ∀ b ∈ s, toLower b ≠ c) : word w s = none := by
  unfold word
  rw [if_neg]
  rintro heq
  rw [← heq] at hc
  obtain ⟨b, hb, hbc⟩ := List.mem_map.1 hc
  exact hs b (List.mem_of_mem_take hb) hbc

private theorem toLower_of_isDigit {d : UInt8} (hd : isDigit d = true) : toLower d = d := by
  have h := isDigit_iff.1 hd
  rw [toLower, if_neg]
  rw [UInt8.le_iff_toNat_le]
  intro hle
  have hlow : 65 ≤ d.toNat := hle.1
  omega

/-- What is printed is taken for a decimal number, and read to its end. -/
theorem magnitude_general {p : Nat} (hp : 0 < p) {q : ℚ} (hq : 0 ≤ q) :
    ∃ hv, magnitude (general p q) = some (.number (printed p q) hv, []) := by
  obtain ⟨int, frac, tail, x, h⟩ := Printf.general_form hp hq
  have htail : Tail tail x := by
    rcases h.tail with ⟨rfl, rfl⟩ | rfl
    · exact .nil
    · exact .exponentText x
  obtain ⟨hv, hnumber⟩ := decimalNumber_point h.spells htail
  obtain ⟨d, rest, hgeneral, hd⟩ := h.head
  have hlower : toLower d = d := toLower_of_isDigit hd
  have hne : ∀ c : UInt8, isDigit c = false → toLower d ≠ c := by
    intro c hc hdc
    rw [hlower] at hdc
    rw [hdc, hc] at hd
    cases hd
  have hnox : ∀ b ∈ general p q, toLower b ≠ 120 := by
    have hall : ∀ b ∈ Printf.numeric, toLower b ≠ 120 := by decide
    exact fun b hb => hall b (h.mem_numeric b hb)
  have hinfinity : word (ascii "infinity") (general p q) = none := hgeneral ▸ word_of_head _ rest (hne 105 rfl)
  have hinf : word (ascii "inf") (general p q) = none := hgeneral ▸ word_of_head _ rest (hne 105 rfl)
  have hnan : word (ascii "nan") (general p q) = none := hgeneral ▸ word_of_head _ rest (hne 110 rfl)
  have hhex : word (ascii "0x") (general p q) = none := word_none (c := 120) (by decide) hnox
  refine ⟨hv, ?_⟩
  unfold magnitude
  rw [hinfinity, hinf, hnan, hhex]
  simp only [Option.bind_none]
  rw [h.text, hnumber]

private theorem isSpace_of_isDigit {d : UInt8} (hd : isDigit d = true) : isSpace d = false := by
  have hdigit := isDigit_iff.1 hd
  have hall : ∀ n < 256, 48 ≤ n → n ≤ 57 → isSpace (UInt8.ofNat n) = false := by decide +kernel
  have hn := hall d.toNat d.toNat_lt hdigit.1 hdigit.2
  rwa [UInt8.ofNat_toNat] at hn

theorem general_head {p : Nat} (hp : 0 < p) {q : ℚ} (hq : 0 ≤ q) :
    ∃ d rest, general p q = d :: rest ∧ isDigit d = true ∧ isSpace d = false := by
  obtain ⟨int, frac, tail, x, h⟩ := Printf.general_form hp hq
  obtain ⟨d, rest, hgeneral, hd⟩ := h.head
  exact ⟨d, rest, hgeneral, hd, isSpace_of_isDigit hd⟩

theorem sign_general {p : Nat} (hp : 0 < p) {q : ℚ} (hq : 0 ≤ q) (negative : Bool) :
    sign ((if negative then 45 :: general p q else general p q).dropWhile isSpace) = (negative, general p q) := by
  obtain ⟨d, rest, hgeneral, hd, hspace⟩ := general_head hp hq
  have hdigit := isDigit_iff.1 hd
  cases negative
  · rw [if_neg (by decide), hgeneral, List.dropWhile_cons_of_neg (by simp [hspace])]
    unfold sign
    split
    · rename_i heq
      obtain ⟨rfl, -⟩ := List.cons.inj heq
      exact absurd hdigit.1 (by decide)
    · rename_i heq
      obtain ⟨rfl, -⟩ := List.cons.inj heq
      exact absurd hdigit.1 (by decide)
    · rfl
  · rw [if_pos rfl, List.dropWhile_cons_of_neg (by decide)]
    rfl

theorem toValue_eq {t : FloatType} (reports negative : Bool) {q : ℚ} (hq : 0 ≤ q) {m : Nat} {e : Int}
    (hnear : t.format.nearest q = some (m, e)) (h : t.format.Canonical m e) :
    toValue t reports negative q hq = (.finite negative m e h,
      reports && m < 2 ^ (t.format.precision - 1) && t.format.toField ℚ m e ≠ q) := by
  unfold toValue
  split
  · rename_i hnone
    rw [hnear] at hnone
    cases hnone
  · rename_i m' e' hsome
    rw [hnear] at hsome
    obtain ⟨rfl, rfl⟩ := Prod.mk.inj (Option.some.inj hsome)
    rfl

/-- The number that is printed for a value is rounded to that value. -/
theorem nearest_printed {t : FloatType} {m : Nat} {e : Int} (h : t.format.Canonical m e) :
    t.format.nearest (printed t.digits (t.format.toField ℚ m e)) = some (m, e) := by
  rcases Nat.eq_zero_or_pos m with rfl | hm
  · have hzero : t.format.toField ℚ 0 e = 0 := by rw [Rounding.Format.toField, Nat.cast_zero, zero_mul]
    have he : e = t.format.minExponent := by
      refine h.normal.resolve_left fun hle => ?_
      rw [t.radix_eq, Nat.le_zero] at hle
      exact absurd hle (pow_ne_zero _ (by decide))
    rw [hzero, Printf.printed, if_pos rfl, Rounding.Format.nearest, if_pos rfl, he]
  · have hpos : 0 < t.format.toField ℚ m e := Rounding.Format.toField_pos hm e
    rw [Printf.printed, if_neg hpos.ne']
    exact Rounding.Format.nearest_scientific (b := 10) (by decide) t.digits_pos t.digits_enough h hm

theorem strto_finite {t : FloatType} (reports negative : Bool) {m : Nat} {e : Int} (h : t.format.Canonical m e) :
    strto t reports (snprintf (.finite negative m e h)) =
      ⟨.finite negative m e h, [], reports && (FloatValue.finite negative m e h).isSubnormal⟩ := by
  have hnonneg : 0 ≤ t.format.toField ℚ m e :=
    mul_nonneg (Nat.cast_nonneg _) (zpow_pos Rounding.Format.radix_pos e).le
  obtain ⟨hv, hmagnitude⟩ := magnitude_general t.digits_pos hnonneg
  have hvalue := toValue_eq reports negative hv (nearest_printed h) h
  have herange : (reports && decide (m < 2 ^ (t.format.precision - 1)) &&
      decide (t.format.toField ℚ m e ≠ printed t.digits (t.format.toField ℚ m e))) =
      (reports && (FloatValue.finite negative m e h).isSubnormal) := by
    rw [Bool.and_assoc]
    congr 1
    unfold FloatValue.isSubnormal
    rcases Nat.eq_zero_or_pos m with rfl | hm
    · have hzero : t.format.toField ℚ 0 e = 0 := by rw [Rounding.Format.toField, Nat.cast_zero, zero_mul]
      rw [hzero, Printf.printed, if_pos rfl]
      simp
    · by_cases hsub : m < 2 ^ (t.format.precision - 1)
      · simp [hm, hsub, (FloatType.printed_ne h hm hsub).symm]
      · simp [hsub]
  unfold strto snprintf
  simp only [sign_general t.digits_pos hnonneg, hmagnitude, hvalue, herange]

end Strtod

theorem toField_nonneg {t : FloatType} (m : Nat) (e : Int) : 0 ≤ t.format.toField ℚ m e :=
  mul_nonneg (Nat.cast_nonneg _) (zpow_pos Rounding.Format.radix_pos e).le

/-- No text begins with white space, and none is empty. -/
theorem snprintf_head {t : FloatType} (v : FloatValue t) : (snprintf v).head?.all isSpace = false := by
  cases v with
  | finite negative m e h =>
    obtain ⟨d, rest, hgeneral, -, hspace⟩ := Strtod.general_head t.digits_pos (toField_nonneg (t := t) m e)
    cases negative
    · show (Printf.general t.digits (t.format.toField ℚ m e)).head?.all isSpace = false
      rw [hgeneral]
      simpa using hspace
    · rfl
  | infinite negative => cases negative <;> rfl
  | nan => rfl

theorem strToFloatingPoint_snprintf (t : FloatType) (reports : Bool) (v : FloatValue t) :
    strToFloatingPoint t reports (snprintf v) =
      if reports && v.isSubnormal then .error (.overflowError (ascii t.message ++ snprintf v)) else .ok v := by
  have hhead := snprintf_head v
  unfold strToFloatingPoint
  simp only
  rw [if_neg (by rw [hhead]; decide)]
  cases v with
  | finite negative m e h =>
    rw [Strtod.strto_finite reports negative h]
    simp only
    by_cases hsub : (reports && (FloatValue.finite negative m e h).isSubnormal) = true
    · -- the digits of a subnormal number are not zero
      have hm : m ≠ 0 := by
        rintro rfl
        simp [FloatValue.isSubnormal] at hsub
      have hzero : (FloatValue.finite negative m e h).isZero = false := by simp [FloatValue.isZero, hm]
      rw [hsub, if_neg (by decide), hzero, if_neg (by decide), if_pos rfl]
    · rw [Bool.eq_false_of_not_eq_true hsub, if_pos rfl, if_pos trivial, if_neg (by decide)]
  | infinite negative =>
    have hstrto : Strtod.strto t reports (snprintf (.infinite negative : FloatValue t)) =
        ⟨.infinite negative, [], false⟩ := by
      cases negative <;> rfl
    rw [hstrto, if_pos rfl, if_pos rfl, FloatValue.isSubnormal, Bool.and_false, if_neg (by decide)]
  | nan =>
    have hstrto : Strtod.strto t reports (snprintf (.nan : FloatValue t)) = ⟨.nan, [], false⟩ := rfl
    rw [hstrto, if_pos rfl, if_pos rfl, FloatValue.isSubnormal, Bool.and_false, if_neg (by decide)]

/-- No text has more than 29 characters. -/
theorem length_snprintf_lt {t : FloatType} (v : FloatValue t) : (snprintf v).length < 32 := by
  cases v with
  | finite negative m e h =>
    have hlen : (Printf.general t.digits (t.format.toField ℚ m e)).length ≤ t.digits + 7 := by
      refine Printf.length_general_le t.digits_pos (toField_nonneg m e) fun hpos => ?_
      refine FloatType.natAbs_exponent_lt h (Nat.pos_of_ne_zero ?_)
      rintro rfl
      rw [Rounding.Format.toField, Nat.cast_zero, zero_mul] at hpos
      exact lt_irrefl _ hpos
    have hdigits : t.digits ≤ 21 := by cases t <;> decide
    unfold snprintf
    simp only
    split
    · rw [List.length_cons]
      omega
    · omega
  | infinite negative =>
    have hall : ∀ b : Bool, (if b then ascii "-INF" else ascii "INF").length < 32 := by decide
    exact hall negative
  | nan =>
    have hnan : (ascii "NAN").length < 32 := by decide
    exact hnan

theorem nul_not_mem_snprintf {t : FloatType} (v : FloatValue t) : nul ∉ snprintf v := by
  cases v with
  | finite negative m e h =>
    obtain ⟨int, frac, tail, x, hform⟩ := Printf.general_form t.digits_pos (toField_nonneg (t := t) m e)
    have hgeneral : nul ∉ Printf.general t.digits (t.format.toField ℚ m e) := fun hnul =>
      absurd (hform.mem_numeric nul hnul) (by decide)
    cases negative
    · exact hgeneral
    · intro hnul
      rcases List.mem_cons.1 hnul with hnul | hnul
      · exact absurd hnul (by decide)
      · exact hgeneral hnul
  | infinite negative =>
    have hall : ∀ b : Bool, nul ∉ (if b then ascii "-INF" else ascii "INF") := by decide
    exact hall negative
  | nan =>
    have hnan : nul ∉ ascii "NAN" := by decide
    exact hnan

/-- What is written for a number of any of the three types stays within the buffer, and is read as that number, unless
the number is subnormal and `errno` tells so: then the text that was written is refused as an overflow. -/
theorem float_round_trip {ε : Type} (t : FloatType) (reports : Bool) (v : FloatValue t) (b : Buffer) : ∃ m : Buffer,
    (Buffer.floatHelper v : Exec Bytes ε Unit) b.bytes = .ret () m.bytes ∧
    strToFloatingPoint t reports (stringAt m.bytes) =
      if reports && v.isSubnormal then .error (.overflowError (ascii t.message ++ snprintf v)) else .ok v := by
  obtain ⟨m, hwrite, htext⟩ := b.write_cString (ε := ε) (length_snprintf_lt v)
  refine ⟨m, hwrite, ?_⟩
  rw [htext (nul_not_mem_snprintf v)]
  exact strToFloatingPoint_snprintf t reports v

end TaoPQ
