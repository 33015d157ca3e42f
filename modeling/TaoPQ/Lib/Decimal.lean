import Mathlib.Algebra.Ring.Nat
import TaoPQ.Lib.Bytes

/-!
# Decimal digits

Numbers written with the digits `0` to `9`, as bytes: the digits of a number (`decimal`), and the number that digits
stand for (`decimalValue`), leading zeros included.
-/

namespace Decimal

/-- `std::isdigit` -/
def isDigit (b : UInt8) : Bool := 48 ≤ b && b ≤ 57

/-- The digits of a number. -/
def decimal (n : Nat) : Bytes := (Nat.toDigits 10 n).map Char.toUInt8

/-- The number that digits stand for. -/
def decimalValue (ds : Bytes) : Nat := ds.foldl (fun n b => 10 * n + (b.toNat - 48)) 0

/-! ### Digits -/

theorem isDigit_iff {b : UInt8} : isDigit b = true ↔ 48 ≤ b.toNat ∧ b.toNat ≤ 57 := by
  rw [isDigit, Bool.and_eq_true, decide_eq_true_eq, decide_eq_true_eq, UInt8.le_iff_toNat_le, UInt8.le_iff_toNat_le]
  rfl

private theorem toNat_of_isDigit {c : Char} (h : c.isDigit = true) : c.toUInt8.toNat = c.toNat ∧ isDigit c.toUInt8 := by
  simp only [Char.isDigit, ge_iff_le, Bool.and_eq_true, decide_eq_true_eq, UInt32.le_iff_toNat_le] at h
  have hlow : 48 ≤ c.val.toNat := h.1
  have hhigh : c.val.toNat ≤ 57 := h.2
  have hnat : c.toUInt8.toNat = c.toNat := by
    show c.val.toNat % 256 = c.val.toNat
    omega
  have hval : c.toNat = c.val.toNat := rfl
  refine ⟨hnat, isDigit_iff.2 ?_⟩
  omega

theorem isDigit_of_mem_decimal {n : Nat} {b : UInt8} (hb : b ∈ decimal n) : isDigit b = true := by
  obtain ⟨c, hc, rfl⟩ := List.mem_map.1 hb
  exact (toNat_of_isDigit (Nat.isDigit_of_mem_toDigits (by decide) (by decide) hc)).2

theorem decimal_ne_nil (n : Nat) : decimal n ≠ [] := by
  rw [decimal, ne_eq, List.map_eq_nil_iff]
  exact Nat.toDigits_ne_nil

theorem length_decimal_le_iff {n k : Nat} (hk : 0 < k) : (decimal n).length ≤ k ↔ n < 10 ^ k := by
  rw [decimal, List.length_map]
  exact Nat.length_toDigits_le_iff (by decide) hk

/-- A number with as many digits as its size tells. -/
theorem length_decimal {n k : Nat} (hlow : 10 ^ k ≤ n) (hhigh : n < 10 ^ (k + 1)) : (decimal n).length = k + 1 := by
  have hle : (decimal n).length ≤ k + 1 := (length_decimal_le_iff (Nat.succ_pos k)).2 hhigh
  have hpos : 0 < (decimal n).length := List.length_pos_iff.2 (decimal_ne_nil n)
  cases k with
  | zero => omega
  | succ k =>
    have hgt : ¬ (decimal n).length ≤ k + 1 := fun h => by
      have hlt := (length_decimal_le_iff (Nat.succ_pos k)).1 h
      omega
    omega

/-! ### Values -/

private theorem foldl_eq (ds : Bytes) (n : Nat) :
    ds.foldl (fun n b => 10 * n + (b.toNat - 48)) n = 10 ^ ds.length * n + decimalValue ds := by
  unfold decimalValue
  induction ds generalizing n with
  | nil => simp
  | cons b ds ih =>
    rw [List.foldl_cons, List.foldl_cons, ih, ih (10 * 0 + (b.toNat - 48)), List.length_cons, Nat.pow_succ,
      Nat.mul_zero, Nat.zero_add, Nat.mul_add, Nat.mul_assoc, Nat.add_assoc]

@[simp] theorem decimalValue_nil : decimalValue [] = 0 := rfl

theorem decimalValue_cons (b : UInt8) (ds : Bytes) :
    decimalValue (b :: ds) = 10 ^ ds.length * (b.toNat - 48) + decimalValue ds := by
  have h := foldl_eq ds (b.toNat - 48)
  rw [← h, decimalValue, List.foldl_cons, Nat.mul_zero, Nat.zero_add]

theorem decimalValue_append (ds es : Bytes) :
    decimalValue (ds ++ es) = 10 ^ es.length * decimalValue ds + decimalValue es := by
  rw [decimalValue, List.foldl_append, foldl_eq]
  rfl

/-- Leading zeros do not count. -/
theorem decimalValue_zeros (k : Nat) (ds : Bytes) : decimalValue (List.replicate k 48 ++ ds) = decimalValue ds := by
  induction k with
  | zero => rfl
  | succ k ih =>
    rw [List.replicate_succ, List.cons_append, decimalValue_cons, ih]
    simp

/-- Trailing zeros multiply. -/
theorem decimalValue_append_zeros (ds : Bytes) (k : Nat) :
    decimalValue (ds ++ List.replicate k 48) = 10 ^ k * decimalValue ds := by
  have hzeros := decimalValue_zeros k []
  rw [List.append_nil] at hzeros
  rw [decimalValue_append, List.length_replicate, hzeros, decimalValue_nil, Nat.add_zero]

/-- What is written is read back. -/
@[simp] theorem decimalValue_decimal (n : Nat) : decimalValue (decimal n) = n := by
  have hchars : ∀ cs : List Char, (∀ c ∈ cs, c.isDigit = true) → ∀ k,
      (cs.map Char.toUInt8).foldl (fun n b => 10 * n + (b.toNat - 48)) k = Nat.ofDigitChars 10 cs k := by
    intro cs hcs
    induction cs with
    | nil =>
      intro k
      rw [Nat.ofDigitChars_nil, List.map_nil, List.foldl_nil]
    | cons c cs ih =>
      intro k
      rw [List.map_cons, List.foldl_cons, Nat.ofDigitChars_cons, ih fun d hd => hcs d (List.mem_cons_of_mem c hd),
        (toNat_of_isDigit (hcs c List.mem_cons_self)).1]
      rfl
  rw [decimalValue, decimal, hchars _ fun c hc => Nat.isDigit_of_mem_toDigits (by decide) (by decide) hc]
  exact Nat.ofDigitChars_ten_toDigits

/-! ### The digits at the beginning of a text -/

theorem takeWhile_digits {ds : Bytes} (hds : ∀ b ∈ ds, isDigit b = true) {rest : Bytes}
    (hrest : ∀ b, rest.head? = some b → isDigit b = false) : (ds ++ rest).takeWhile isDigit = ds := by
  rw [List.takeWhile_append_of_pos hds]
  cases rest with
  | nil => simp
  | cons b rest =>
    rw [List.takeWhile_cons_of_neg (by simp [hrest b rfl]), List.append_nil]

theorem dropWhile_digits {ds : Bytes} (hds : ∀ b ∈ ds, isDigit b = true) {rest : Bytes}
    (hrest : ∀ b, rest.head? = some b → isDigit b = false) : (ds ++ rest).dropWhile isDigit = rest := by
  rw [List.dropWhile_append_of_pos hds]
  cases rest with
  | nil => rfl
  | cons b rest => rw [List.dropWhile_cons_of_neg (by simp [hrest b rfl])]

/-- A text is its digits and what comes behind them. -/
theorem digits_or_rest (s : Bytes) : ∃ ds rest, s = ds ++ rest ∧ (∀ b ∈ ds, isDigit b = true) ∧
    (∀ b, rest.head? = some b → isDigit b = false) ∧ s.takeWhile isDigit = ds := by
  induction s with
  | nil => exact ⟨[], [], rfl, by simp, by simp, rfl⟩
  | cons b s ih =>
    by_cases hb : isDigit b = true
    · obtain ⟨ds, rest, rfl, hds, hrest, htake⟩ := ih
      refine ⟨b :: ds, rest, rfl, List.forall_mem_cons.2 ⟨hb, hds⟩, hrest, ?_⟩
      rw [List.takeWhile_cons_of_pos hb, htake]
    · refine ⟨[], b :: s, rfl, by simp, ?_, List.takeWhile_cons_of_neg hb⟩
      rintro c hc
      obtain rfl := Option.some.inj hc
      simpa using hb

end Decimal
