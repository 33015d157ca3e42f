import TaoPQ.Bytea
import TaoPQ.Lib.Decimal

/-!
# Integers as text

How `parameter_traits` writes the integer types (`to_chars_helper`, into the buffer of `buffer_helper`), and how
`result_traits` reads them (`internal::from_chars`).  What is written for a value of one type is read by every type
that has the value, and refused by the others with an exception that tells why (`integer_read_as`); the texts that are
read, and the two kinds of refusal, are told apart by their digits (`from_chars_cases`).
-/

namespace TaoPQ

open Byte Decimal Exec

/-- The integer types, with the sizes of 64-bit Unix. -/
inductive IntegerType where
  | signedChar
  | unsignedChar
  | short
  | unsignedShort
  | int
  | unsigned
  | long
  | unsignedLong
  | longLong
  | unsignedLongLong
  deriving DecidableEq, Repr

namespace IntegerType

def bits : IntegerType → Nat
  | signedChar | unsignedChar => 8
  | short | unsignedShort => 16
  | int | unsigned => 32
  | long | unsignedLong | longLong | unsignedLongLong => 64

def isSigned : IntegerType → Bool
  | signedChar | short | int | long | longLong => true
  | unsignedChar | unsignedShort | unsigned | unsignedLong | unsignedLongLong => false

/-- `internal::demangle< T >` -/
def name : IntegerType → String
  | signedChar => "signed char"
  | unsignedChar => "unsigned char"
  | short => "short"
  | unsignedShort => "unsigned short"
  | int => "int"
  | unsigned => "unsigned int"
  | long => "long"
  | unsignedLong => "unsigned long"
  | longLong => "long long"
  | unsignedLongLong => "unsigned long long"

/-- `std::numeric_limits< T >::min()` -/
def min (t : IntegerType) : Int := if t.isSigned then -2 ^ (t.bits - 1) else 0

/-- `std::numeric_limits< T >::max()` -/
def max (t : IntegerType) : Int := if t.isSigned then 2 ^ (t.bits - 1) - 1 else 2 ^ t.bits - 1

/-- The values of the type. -/
def Has (t : IntegerType) (v : Int) : Prop := t.min ≤ v ∧ v ≤ t.max

instance (t : IntegerType) (v : Int) : Decidable (t.Has v) := inferInstanceAs (Decidable (_ ∧ _))

/-- A value of the type. -/
abbrev Value (t : IntegerType) : Type := { v : Int // t.Has v }

/-- `result_traits< T >::from` -/
def fromText (t : IntegerType) (value : Bytes) : Except LeafError Int := fromChars t.name t.min t.max value

/-- The text of the exceptions. -/
def what (t : IntegerType) (value : Bytes) : Bytes :=
  ascii "tao::pq::internal::from_chars<" ++ ascii t.name ++ ascii ">(): " ++ value

end IntegerType

/-- `buffer_helper::m_buffer`, before anything is written to it. -/
structure Buffer where
  bytes : Bytes
  size : bytes.length = 32

namespace Buffer

variable {ε : Type}

/-- Write at the beginning, which `std::to_chars` and `std::snprintf` do not do when the text is too long: the
assertion behind them fails then. -/
def write (text : Bytes) : Exec Bytes ε Unit := fun m =>
  if text.length ≤ m.length then .ret () (text ++ m.drop text.length) else .undefined

/-- The constructor of `to_chars_helper`. -/
def toCharsHelper (v : Int) : Exec Bytes ε Unit := do
  write (toChars v)
  Bytea.put (toChars v).length nul

end Buffer

/-! ### The texts of numbers -/

theorem toChars_neg {n : Nat} (hn : 0 < n) : toChars (-n) = 45 :: decimal n := by
  obtain ⟨k, rfl⟩ : ∃ k, n = k + 1 := ⟨n - 1, by omega⟩
  rfl

/-- The text of a number, for a type: digits, with a minus sign before them if the type is signed. -/
inductive Numeral (t : IntegerType) : Bytes → Int → Prop where
  | positive {ds : Bytes} : ds ≠ [] → (∀ b ∈ ds, isDigit b = true) → Numeral t ds (decimalValue ds)
  | negative {ds : Bytes} : t.isSigned = true → ds ≠ [] → (∀ b ∈ ds, isDigit b = true) →
      Numeral t (45 :: ds) (-decimalValue ds)

/-- The text goes on with something else than a digit, or ends. -/
def DigitsEnd (rest : Bytes) : Prop := ∀ b, rest.head? = some b → isDigit b = false

theorem digitsEnd_nil : DigitsEnd [] := fun _ h => by cases h

/-- The digits of `from_chars` stand for a number. -/
private theorem foldl_digits {ds : Bytes} (hds : ∀ b ∈ ds, isDigit b = true) (k : Nat) :
    ds.foldl (fun (n : Int) b => 10 * n + (b.toNat - 48)) (k : Int) =
      ((ds.foldl (fun n b => 10 * n + (b.toNat - 48)) k : Nat) : Int) := by
  induction ds generalizing k with
  | nil => rfl
  | cons b ds ih =>
    have hb := (isDigit_iff.1 (hds b List.mem_cons_self)).1
    have hstep : (10 * (k : Int) + (b.toNat - 48)) = ((10 * k + (b.toNat - 48) : Nat) : Int) := by omega
    rw [List.foldl_cons, List.foldl_cons, hstep, ih fun c hc => hds c (List.mem_cons_of_mem b hc)]

namespace IntegerType

variable (t : IntegerType)

theorem min_neg_iff : t.min < 0 ↔ t.isSigned = true := by cases t <;> decide

/-- What comes of the digits at the beginning, behind the sign. -/
def outcome (value : Bytes) (n : Int) (rest : Bytes) : Except LeafError Int :=
  if ¬ t.Has n then .error (.outOfRange (t.what value))
  else if rest = [] then .ok n
  else .error (.invalidArgument (t.what value))

variable {t}

private theorem fromText_digits {value pattern ds rest : Bytes} {negative : Bool}
    (hnegative : (decide (t.min < 0) && value.head? == some 45) = negative)
    (hpattern : (if negative then value.tail else value) = pattern) (hsplit : pattern = ds ++ rest)
    (hds : ∀ b ∈ ds, isDigit b = true) (hrest : DigitsEnd rest) :
    t.fromText value = if ds = [] then .error (.invalidArgument (t.what value))
      else t.outcome value (if negative then -decimalValue ds else decimalValue ds) rest := by
  have htake : pattern.takeWhile (fun b => 48 ≤ b && b ≤ 57) = ds := by
    rw [hsplit]
    exact takeWhile_digits hds hrest
  have hvalue : ds.foldl (fun (n : Int) b => 10 * n + (b.toNat - 48)) 0 = (decimalValue ds : Int) := foldl_digits hds 0
  have hlength : ds.length = pattern.length ↔ rest = [] := by
    rw [hsplit, List.length_append, ← List.length_eq_zero_iff]
    omega
  unfold fromText fromChars
  simp only [hnegative, hpattern, htake, hvalue, hlength]
  unfold outcome Has
  simp only [not_and_or, not_le]
  rfl

/-- A number, and what comes behind it. -/
theorem fromText_numeral {s rest : Bytes} {n : Int} (hs : Numeral t s n) (hrest : DigitsEnd rest) :
    t.fromText (s ++ rest) = t.outcome (s ++ rest) n rest := by
  cases hs with
  | positive hne hds =>
    obtain ⟨d, ds, rfl⟩ := List.exists_cons_of_ne_nil hne
    have hd : d ≠ 45 := by
      rintro rfl
      exact absurd (hds 45 List.mem_cons_self) (by decide)
    have hnegative : (decide (t.min < 0) && (d :: ds ++ rest).head? == some 45) = false := by simp [hd]
    rw [fromText_digits hnegative (if_neg (by decide)) rfl hds hrest, if_neg hne, if_neg (by decide)]
  | @negative ds hsigned hne hds =>
    have hnegative : (decide (t.min < 0) && (45 :: ds ++ rest).head? == some 45) = true := by
      simp [t.min_neg_iff, hsigned]
    have hpattern : (if true then (45 :: ds ++ rest).tail else 45 :: ds ++ rest) = ds ++ rest := if_pos rfl
    rw [fromText_digits hnegative hpattern rfl hds hrest, if_neg hne, if_pos rfl]

/-- A text that begins with no number. -/
theorem fromText_of_none {s : Bytes} (hs : ∀ p rest n, s = p ++ rest → ¬ Numeral t p n) :
    t.fromText s = .error (.invalidArgument (t.what s)) := by
  by_cases hsign : (decide (t.min < 0) && s.head? == some 45) = true
  · have hminus : s.head? = some 45 := by simpa using (Bool.and_eq_true_iff.1 hsign).2
    obtain ⟨s', rfl⟩ : ∃ s', s = 45 :: s' := by
      cases s with
      | nil => cases hminus
      | cons b s' => exact ⟨s', by rw [Option.some.inj hminus]⟩
    have hsigned : t.isSigned = true := t.min_neg_iff.1 (by simpa using (Bool.and_eq_true_iff.1 hsign).1)
    obtain ⟨ds, rest, hsplit, hds, hrest, -⟩ := digits_or_rest s'
    rw [fromText_digits hsign (if_pos rfl) hsplit hds hrest, if_pos]
    by_contra hne
    exact hs (45 :: ds) rest _ (by rw [hsplit]; rfl) (.negative hsigned hne hds)
  · obtain ⟨ds, rest, hsplit, hds, hrest, -⟩ := digits_or_rest s
    rw [fromText_digits (Bool.eq_false_of_not_eq_true hsign) (if_neg (by decide)) hsplit hds hrest, if_pos]
    by_contra hne
    exact hs ds rest _ hsplit (.positive hne hds)

/-- A text begins with a number that can not be made longer, or with none. -/
theorem numeral_or_none (t : IntegerType) (s : Bytes) :
    (∃ p rest n, s = p ++ rest ∧ DigitsEnd rest ∧ Numeral t p n) ∨ ∀ p rest n, s = p ++ rest → ¬ Numeral t p n := by
  by_cases h : ∃ p rest n, s = p ++ rest ∧ Numeral t p n
  · obtain ⟨p, rest, n, rfl, hp⟩ := h
    obtain ⟨es, rest, rfl, hes, hrest, -⟩ := digits_or_rest rest
    left
    cases hp with
    | positive hne hds =>
      refine ⟨p ++ es, rest, _, (List.append_assoc _ _ _).symm, hrest, .positive (by simp [hne]) ?_⟩
      exact List.forall_mem_append.2 ⟨hds, hes⟩
    | @negative ds hsigned hne hds =>
      refine ⟨45 :: (ds ++ es), rest, _, by simp, hrest, .negative hsigned (by simp [hne]) ?_⟩
      exact List.forall_mem_append.2 ⟨hds, hes⟩
  · exact .inr fun p rest n hs hp => h ⟨p, rest, n, hs, hp⟩

/-- The number at the beginning of the text is not a value of the type. -/
def Overflows (t : IntegerType) (s : Bytes) : Prop :=
  ∃ p rest n, s = p ++ rest ∧ DigitsEnd rest ∧ Numeral t p n ∧ ¬ t.Has n

theorem fromText_of_overflows {s : Bytes} (h : t.Overflows s) : t.fromText s = .error (.outOfRange (t.what s)) := by
  obtain ⟨p, rest, n, rfl, hrest, hp, hn⟩ := h
  rw [fromText_numeral hp hrest, outcome, if_pos hn]

theorem fromText_of_has {s : Bytes} {n : Int} (hs : Numeral t s n) (hn : t.Has n) : t.fromText s = .ok n := by
  have h := fromText_numeral hs digitsEnd_nil
  rw [List.append_nil] at h
  rw [h, outcome, if_neg (not_not_intro hn), if_pos rfl]

/-- What else there is. -/
theorem fromText_of_neither {s : Bytes} (hover : ¬ t.Overflows s) (hs : ∀ n, ¬ Numeral t s n) :
    t.fromText s = .error (.invalidArgument (t.what s)) := by
  rcases t.numeral_or_none s with ⟨p, rest, n, rfl, hrest, hp⟩ | hnone
  · have hn : t.Has n := by
      by_contra hn
      exact hover ⟨p, rest, n, rfl, hrest, hp, hn⟩
    have hne : rest ≠ [] := by
      rintro rfl
      exact hs n (by rwa [List.append_nil])
    rw [fromText_numeral hp hrest, outcome, if_neg (not_not_intro hn), if_neg hne]
  · exact fromText_of_none hnone

end IntegerType

/-- A text is read if and only if it is the text of a value, without anything before or behind it; a number that is not
a value is out of range whatever comes behind it, and all other texts are invalid. -/
theorem from_chars_cases (t : IntegerType) (s : Bytes) :
    (∀ n, t.fromText s = .ok n ↔ Numeral t s n ∧ t.Has n) ∧
    (t.fromText s = .error (.outOfRange (t.what s)) ↔ t.Overflows s) ∧
    (t.fromText s = .error (.invalidArgument (t.what s)) ↔ ¬ t.Overflows s ∧ ∀ n, ¬ Numeral t s n) := by
  by_cases hover : t.Overflows s
  · have h := IntegerType.fromText_of_overflows hover
    refine ⟨fun n => ⟨fun hok => ?_, fun hn => ?_⟩, ⟨fun _ => hover, fun _ => h⟩, fun hinvalid => ?_, fun hn => ?_⟩
    · rw [h] at hok
      cases hok
    · rw [IntegerType.fromText_of_has hn.1 hn.2] at h
      cases h
    · rw [h] at hinvalid
      cases hinvalid
    · exact absurd hover hn.1
  by_cases hnumeral : ∃ n, Numeral t s n
  · obtain ⟨n, hs⟩ := hnumeral
    have hn : t.Has n := by
      by_contra hn
      exact hover ⟨s, [], n, (List.append_nil s).symm, digitsEnd_nil, hs, hn⟩
    have h := IntegerType.fromText_of_has hs hn
    refine ⟨fun k => ⟨fun hok => ?_, fun hk => IntegerType.fromText_of_has hk.1 hk.2⟩, ⟨fun hrange => ?_, fun ho => ?_⟩,
      fun hinvalid => ?_, fun hk => absurd hs (hk.2 n)⟩
    · rw [h] at hok
      obtain rfl := Except.ok.inj hok
      exact ⟨hs, hn⟩
    · rw [h] at hrange
      cases hrange
    · exact absurd ho hover
    · rw [h] at hinvalid
      cases hinvalid
  · have hnone := not_exists.1 hnumeral
    have h := IntegerType.fromText_of_neither hover hnone
    refine ⟨fun n => ⟨fun hok => ?_, fun hn => absurd hn.1 (hnone n)⟩, ⟨fun hrange => ?_, fun ho => absurd ho hover⟩,
      ⟨fun _ => ⟨hover, hnone⟩, fun _ => h⟩⟩
    · rw [h] at hok
      cases hok
    · rw [h] at hrange
      cases hrange

/-! ### The buffer -/

theorem isDigit_ne_nul {ds : Bytes} (hds : ∀ b ∈ ds, isDigit b = true) : nul ∉ ds := fun h =>
  absurd (hds nul h) (by decide)

theorem nul_not_mem_toChars (v : Int) : nul ∉ toChars v := by
  rcases Int.eq_nat_or_neg v with ⟨n, rfl | rfl⟩
  · exact isDigit_ne_nul fun b => isDigit_of_mem_decimal
  · rcases Nat.eq_zero_or_pos n with rfl | hn
    · have hdigits : ∀ b ∈ decimal 0, isDigit b = true := fun b => isDigit_of_mem_decimal
      exact isDigit_ne_nul hdigits
    · rw [toChars_neg hn]
      intro h
      rcases List.mem_cons.1 h with h | h
      · exact absurd h (by decide)
      · exact isDigit_ne_nul (fun b => isDigit_of_mem_decimal) h

/-- What is written for a value is its numeral. -/
theorem numeral_toChars {t : IntegerType} {v : Int} (hv : t.Has v) : Numeral t (toChars v) v := by
  have hdigits : ∀ n : Nat, ∀ b ∈ decimal n, isDigit b = true := fun n b => isDigit_of_mem_decimal
  rcases Int.eq_nat_or_neg v with ⟨n, rfl | rfl⟩
  · have h := Numeral.positive (t := t) (decimal_ne_nil n) (hdigits n)
    rwa [decimalValue_decimal] at h
  · rcases Nat.eq_zero_or_pos n with rfl | hn
    · exact Numeral.positive (t := t) (decimal_ne_nil 0) (hdigits 0)
    · have hsigned : t.isSigned = true := t.min_neg_iff.1 (by have hlow := hv.1; omega)
      have h := Numeral.negative hsigned (decimal_ne_nil n) (hdigits n)
      rwa [decimalValue_decimal, ← toChars_neg hn] at h

/-- No text of an integer has more than 20 characters. -/
theorem length_toChars_le {t : IntegerType} (v : t.Value) : (toChars v.1).length ≤ 20 := by
  obtain ⟨v, hlow, hhigh⟩ := v
  have hmin : -(10 : Int) ^ 19 < t.min := by cases t <;> decide
  have hmax : t.max < (10 : Int) ^ 20 := by cases t <;> decide
  rcases Int.eq_nat_or_neg v with ⟨n, rfl | rfl⟩
  · exact (length_decimal_le_iff (by decide)).2 (by omega)
  · rcases Nat.eq_zero_or_pos n with rfl | hn
    · show (decimal 0).length ≤ 20
      decide
    · have hlen : (decimal n).length ≤ 19 := (length_decimal_le_iff (by decide)).2 (by omega)
      rw [toChars_neg hn, List.length_cons]
      omega

namespace Buffer

variable {ε : Type}

/-- A text with room for its end is written into the buffer, which is a C string then. -/
theorem write_cString (b : Buffer) {text : Bytes} (hlen : text.length < 32) : ∃ m : Buffer,
    (write text >>= fun _ => Bytea.put text.length nul : Exec Bytes ε Unit) b.bytes = .ret () m.bytes ∧
    (nul ∉ text → stringAt m.bytes = text) := by
  have hdrop : ∃ c rest, b.bytes.drop text.length = c :: rest ∧ text.length + 1 + rest.length = 32 := by
    obtain ⟨c, rest, hc⟩ := List.exists_cons_of_length_pos
      (show 0 < (b.bytes.drop text.length).length by rw [List.length_drop, b.size]; omega)
    refine ⟨c, rest, hc, ?_⟩
    have h := congrArg List.length hc
    rw [List.length_drop, b.size, List.length_cons] at h
    omega
  obtain ⟨c, rest, hc, hrest⟩ := hdrop
  have hwrite : (write text : Exec Bytes ε Unit) b.bytes = .ret () (text ++ c :: rest) := by
    rw [write, if_pos (by rw [b.size]; omega), hc]
  refine ⟨⟨text ++ nul :: rest, ?_⟩, ?_, fun htext => stringAt_append htext rest⟩
  · rw [List.length_append, List.length_cons]
    omega
  · rw [bind_ret hwrite]
    exact Bytea.put_append text rest nul c

end Buffer

/-- What is written for a value of an integer type stays within the buffer, and is read as the same number by every
integer type that has it.  A type that does not have it says that it is out of range, but where a negative number meets
an unsigned type the text is invalid. -/
theorem integer_read_as {ε : Type} (t u : IntegerType) (v : t.Value) (b : Buffer) : ∃ m : Buffer,
    (Buffer.toCharsHelper v.1 : Exec Bytes ε Unit) b.bytes = .ret () m.bytes ∧
    u.fromText (stringAt m.bytes) =
      if u.Has v.1 then .ok v.1
      else if v.1 < 0 ∧ u.isSigned = false then .error (.invalidArgument (u.what (toChars v.1)))
      else .error (.outOfRange (u.what (toChars v.1))) := by
  have hfits : (toChars v.1).length < 32 := by
    have hlen := length_toChars_le v
    omega
  obtain ⟨m, hwrite, htext⟩ := b.write_cString (ε := ε) hfits
  refine ⟨m, hwrite, ?_⟩
  rw [htext (nul_not_mem_toChars v.1)]
  obtain ⟨v, hv⟩ := v
  simp only
  have hdigits : ∀ n : Nat, ∀ b ∈ decimal n, isDigit b = true := fun n b => isDigit_of_mem_decimal
  have hread : ∀ {s : Bytes}, Numeral u s v → u.fromText s =
      if u.Has v then .ok v else .error (.outOfRange (u.what s)) := by
    intro s hs
    have h := IntegerType.fromText_numeral hs digitsEnd_nil
    rw [List.append_nil, IntegerType.outcome, if_pos rfl, ite_not] at h
    exact h
  rcases Int.eq_nat_or_neg v with ⟨n, rfl | rfl⟩
  · have hs : Numeral u (toChars n) n := by
      have h := Numeral.positive (t := u) (decimal_ne_nil n) (hdigits n)
      rwa [decimalValue_decimal] at h
    rw [hread hs, if_neg (c := (n : Int) < 0 ∧ u.isSigned = false) (by omega)]
  · rcases Nat.eq_zero_or_pos n with rfl | hn
    · have hs : Numeral u (toChars (-((0 : Nat) : Int))) (-((0 : Nat) : Int)) :=
        Numeral.positive (t := u) (decimal_ne_nil 0) (hdigits 0)
      rw [hread hs, if_neg (c := (-((0 : Nat) : Int)) < 0 ∧ u.isSigned = false) (by omega)]
    · cases hsigned : u.isSigned with
      | true =>
        have hs : Numeral u (toChars (-n)) (-n) := by
          have h := Numeral.negative hsigned (decimal_ne_nil n) (hdigits n)
          rwa [decimalValue_decimal, ← toChars_neg hn] at h
        rw [hread hs, if_neg (c := (-(n : Int)) < 0 ∧ true = false) (by simp)]
      | false =>
        have hmin : ¬ u.Has (-n) := by
          rintro ⟨hlow, -⟩
          have hzero : ¬ u.min < 0 := fun h => by
            rw [u.min_neg_iff.1 h] at hsigned
            cases hsigned
          omega
        rw [if_neg hmin, if_pos ⟨by omega, rfl⟩]
        refine IntegerType.fromText_of_none fun p rest k hs hp => ?_
        rw [toChars_neg hn] at hs
        cases hp with
        | positive hne hds =>
          obtain ⟨d, ds, rfl⟩ := List.exists_cons_of_ne_nil hne
          obtain ⟨rfl, -⟩ := List.cons.inj hs
          exact absurd (hds 45 List.mem_cons_self) (by decide)
        | negative hu => rw [hsigned] at hu; cases hu

end TaoPQ
