import TaoPQ.Integers
import TaoPQ.RowTypes

/-!
# Types with one column

`bool`, `char`, the integer types, strings and byte strings: how their values are passed and read, and the columns
that they fit into.  The columns are those that PostgreSQL documents, as functions from the text that is stored to the
text that comes back (`ServerType.store`).  A value that is stored in such a column is read again (`ScalarType.stored`).
-/

namespace TaoPQ

open Byte Decimal

/-! ### The columns of the server -/

/-- A type of columns. -/
inductive ServerType where
  | boolean
  | smallint
  | integer
  | bigint
  | numeric
  | text
  | bytea
  deriving DecidableEq

namespace ServerType

/-- The words for true and for false. -/
def booleanWords : Bool → List Bytes
  | true => [ascii "TRUE", ascii "YES", ascii "ON", ascii "1"]
  | false => [ascii "FALSE", ascii "NO", ascii "OFF", ascii "0"]

/-- A truth value is the beginning of one of its words, in any letter case, and of no word for the other one. -/
def booleanInput (s : Bytes) : Option Bool :=
  let word := (ArrayInput.trim s).map toUpper
  let begins (v : Bool) : Bool := (booleanWords v).any word.isPrefixOf
  if begins true && !begins false then some true
  else if begins false && !begins true then some false
  else none

def booleanOutput (v : Bool) : Bytes := if v then ascii "t" else ascii "f"

/-- An integer is digits, with a sign before them or none. -/
def integerInput (s : Bytes) : Option Int :=
  let t := ArrayInput.trim s
  let digits := if t.head? = some 45 ∨ t.head? = some 43 then t.tail else t
  if digits ≠ [] ∧ ∀ b ∈ digits, isDigit b = true then
    some (if t.head? = some 45 then -decimalValue digits else decimalValue digits)
  else none

/-- The integers of a column.  The type `numeric` has 131072 digits before the decimal point. -/
def Has : ServerType → Int → Prop
  | smallint, n => IntegerType.short.Has n
  | integer, n => IntegerType.int.Has n
  | bigint, n => IntegerType.long.Has n
  | numeric, n => (decimal n.natAbs).length ≤ 131072
  | _, _ => False

instance : (t : ServerType) → DecidablePred t.Has
  | smallint => fun n => inferInstanceAs (Decidable (IntegerType.short.Has n))
  | integer => fun n => inferInstanceAs (Decidable (IntegerType.int.Has n))
  | bigint => fun n => inferInstanceAs (Decidable (IntegerType.long.Has n))
  | numeric => fun n => inferInstanceAs (Decidable ((decimal n.natAbs).length ≤ 131072))
  | boolean | text | bytea => fun _ => inferInstanceAs (Decidable False)

/-- The hex format of byte strings: pairs of digits, with white space between the pairs. -/
def hexInput : Bytes → Option Bytes
  | [] => some []
  | [b] => if b ∈ [space, newline, tab, carriageReturn] then some [] else none
  | b :: c :: s =>
    if b ∈ [space, newline, tab, carriageReturn] then hexInput (c :: s)
    else do
      let high ← CopyInput.hexadecimalDigit b
      let low ← CopyInput.hexadecimalDigit c
      let v ← hexInput s
      return (16 * high + low) :: v

/-- The escape format: a backslash stands before another one, or before three octal digits. -/
def escapeInput : Bytes → Option Bytes
  | [] => some []
  | [b] => if b = backslash then none else some [b]
  | b :: c :: s =>
    if b ≠ backslash then (escapeInput (c :: s)).map (b :: ·)
    else if c = backslash then (escapeInput s).map (backslash :: ·)
    else match s with
      | d :: e :: s => do
        let high ← CopyInput.octalDigit c
        let middle ← CopyInput.octalDigit d
        let low ← CopyInput.octalDigit e
        let v ← escapeInput s
        if high ≤ 3 then some ((64 * high + 8 * middle + low) :: v) else none
      | _ => none

def byteaInput (s : Bytes) : Option Bytes :=
  if s.take 2 = [backslash, 120] then hexInput (s.drop 2) else escapeInput s

variable (encoded : Bytes → Bool)

/-- What comes back of a text that is stored in a column, if the column takes it.  The server has an encoding, and
text has to be in this encoding. -/
def store : ServerType → Bytes → Option Bytes
  | boolean, s => (booleanInput s).map booleanOutput
  | text, s => if encoded s ∧ nul ∉ s then some s else none
  | bytea, s => (byteaInput s).map Bytea.byteaText
  | t, s => (integerInput s).bind fun n => if t.Has n then some (toChars n) else none

end ServerType

/-! ### The types -/

/-- A type with one column, other than an array. -/
inductive ScalarType where
  | bool
  | char
  | integer (t : IntegerType)
  | string
  | binary
  deriving DecidableEq

/-- A value of such a type. -/
inductive Scalar where
  | bool (v : Bool)
  | char (v : UInt8)
  | integer (v : Int)
  | string (v : Bytes)
  | binary (v : Bytes)
  deriving DecidableEq

namespace Scalar

def param : Scalar → Param
  | bool v => .bool v
  | char v => .char v
  | integer v => .integer v
  | string v => .string v
  | binary v => .binary v

/-- The text that is passed. -/
def text : Scalar → Bytes
  | bool v => boolText v
  | char v => [v]
  | integer v => toChars v
  | string v => v
  | binary v => Bytea.byteaText v

/-- The text that comes back. -/
def cell : Scalar → Bytes
  | bool v => ServerType.booleanOutput v
  | char v => [v]
  | integer v => toChars v
  | string v => v
  | binary v => Bytea.byteaText v

theorem fields_param (x : Scalar) : x.param.fields = [some x.text] := by cases x <;> rfl

end Scalar

/-- What a function makes of a C string: nothing that it leaves behind is used any more.  The functions that are used
here have no undefined behaviour on C strings. -/
def toExcept {α : Type} : Outcome Bytes LeafError α → Except LeafError α
  | .ret a _ => .ok a
  | .throw e _ => .error e
  | .undefined => .error (.runtimeError [])

namespace ScalarType

variable (encoded : Bytes → Bool) (fill : Nat → UInt8)

/-- The values of a type that can be passed as text in the encoding of the server. -/
def Has : ScalarType → Scalar → Prop
  | bool, .bool _ => True
  | char, .char v => v ≠ nul ∧ encoded [v] = true
  | integer t, .integer v => t.Has v
  | string, .string v => nul ∉ v ∧ encoded v = true
  | binary, .binary _ => True
  | _, _ => False

instance : (t : ScalarType) → DecidablePred (t.Has encoded)
  | bool, .bool _ => inferInstanceAs (Decidable True)
  | char, .char v => inferInstanceAs (Decidable (v ≠ nul ∧ encoded [v] = true))
  | integer t, .integer v => inferInstanceAs (Decidable (t.Has v))
  | string, .string v => inferInstanceAs (Decidable (nul ∉ v ∧ encoded v = true))
  | binary, .binary _ => inferInstanceAs (Decidable True)
  | bool, .char _ | bool, .integer _ | bool, .string _ | bool, .binary _
  | char, .bool _ | char, .integer _ | char, .string _ | char, .binary _
  | integer _, .bool _ | integer _, .char _ | integer _, .string _ | integer _, .binary _
  | string, .bool _ | string, .char _ | string, .integer _ | string, .binary _
  | binary, .bool _ | binary, .char _ | binary, .integer _ | binary, .string _ => inferInstanceAs (Decidable False)

/-- The column has all values of the type. -/
def Fits : ScalarType → ServerType → Prop
  | bool, s => s = .boolean
  | char, s => s = .text
  | integer t, s => s.Has t.min ∧ s.Has t.max
  | string, s => s = .text
  | binary, s => s = .bytea

instance : (t : ScalarType) → DecidablePred t.Fits
  | bool | char | string | binary => fun s => inferInstanceAs (Decidable (s = _))
  | integer t => fun s => inferInstanceAs (Decidable (s.Has t.min ∧ s.Has t.max))

/-- `result_traits< bool >::from` -/
def boolFrom (value : Bytes) : Except LeafError Bool :=
  if value = ascii "t" then .ok true
  else if value = ascii "f" then .ok false
  else .error (.runtimeError (ascii "invalid value in tao::pq::result_traits<bool> for input: " ++ value))

/-- `result_traits< char >::from` -/
def charFrom (value : Bytes) : Except LeafError UInt8 :=
  if value.length = 1 then .ok (value.getD 0 nul)
  else .error (.runtimeError (ascii "invalid value in tao::pq::result_traits<char> for input: " ++ value))

/-- `result_traits< T >::from` -/
def fromText : ScalarType → Bytes → Except LeafError Scalar
  | bool, value => (boolFrom value).map .bool
  | char, value => (charFrom value).map .char
  | integer t, value => (t.fromText value).map .integer
  | string, value => .ok (.string value)
  | binary, value => (toExcept (Bytea.unescapeBytea fill (cString value))).map .binary

end ScalarType

/-! ### What the server makes of the texts -/

theorem trim_eq_self {s : Bytes} (hs : ∀ b ∈ s, ¬ isSpace b) : ArrayInput.trim s = s := by
  refine (ArrayInput.trim_eq_self_iff s).2 ⟨fun b hb => ?_, fun b hb => ?_⟩
  · exact hs b (List.mem_of_mem_head? hb)
  · exact hs b (List.mem_of_mem_getLast? hb)

theorem digit_not_space {b : UInt8} (hb : isDigit b = true) : ¬ isSpace b := by
  intro hspace
  have hmem : b ∈ [space, tab, newline, verticalTab, formFeed, carriageReturn] := of_decide_eq_true hspace
  have hdigits : ∀ c ∈ [space, tab, newline, verticalTab, formFeed, carriageReturn], isDigit c = false := by decide
  rw [hdigits b hmem] at hb
  cases hb

namespace ServerType

theorem booleanInput_text (v : Bool) : booleanInput (boolText v) = some v := by cases v <;> decide

/-- The text of a number without a sign. -/
theorem integerInput_digits {ds : Bytes} (hne : ds ≠ []) (hds : ∀ b ∈ ds, isDigit b = true) :
    integerInput ds = some (decimalValue ds : Int) := by
  have hsign : ∀ c : UInt8, isDigit c = false → ds.head? ≠ some c := by
    intro c hc h
    rw [hds c (List.mem_of_mem_head? h)] at hc
    cases hc
  have hplain : ¬ (ds.head? = some 45 ∨ ds.head? = some 43) := by
    rintro (h | h)
    · exact hsign 45 (by decide) h
    · exact hsign 43 (by decide) h
  unfold integerInput
  rw [trim_eq_self fun b hb => digit_not_space (hds b hb)]
  simp only
  rw [if_neg hplain, if_pos ⟨hne, hds⟩, if_neg (hsign 45 (by decide))]

theorem integerInput_negative {ds : Bytes} (hne : ds ≠ []) (hds : ∀ b ∈ ds, isDigit b = true) :
    integerInput (45 :: ds) = some (-(decimalValue ds : Int)) := by
  have hspace : ∀ b ∈ 45 :: ds, ¬ isSpace b := by
    refine List.forall_mem_cons.2 ⟨by decide, fun b hb => digit_not_space (hds b hb)⟩
  unfold integerInput
  rw [trim_eq_self hspace]
  simp only
  rw [if_pos (Or.inl rfl : (45 :: ds).head? = some 45 ∨ _), List.tail_cons, if_pos ⟨hne, hds⟩, List.head?_cons,
    if_pos rfl]

theorem integerInput_toChars (n : Int) : integerInput (toChars n) = some n := by
  have hdigits : ∀ n : Nat, ∀ b ∈ decimal n, isDigit b = true := fun n b => isDigit_of_mem_decimal
  have hnat : ∀ n : Nat, integerInput (decimal n) = some (n : Int) := by
    intro n
    have h := integerInput_digits (decimal_ne_nil n) (hdigits n)
    rwa [decimalValue_decimal] at h
  rcases Int.eq_nat_or_neg n with ⟨n, rfl | rfl⟩
  · exact hnat n
  · rcases Nat.eq_zero_or_pos n with rfl | hn
    · exact hnat 0
    · have h := integerInput_negative (decimal_ne_nil n) (hdigits n)
      rwa [decimalValue_decimal, ← toChars_neg hn] at h

/-- A number between two others has no more digits than they have. -/
private theorem length_decimal_between {lo hi n : Int} (hn : lo ≤ n ∧ n ≤ hi) {k : Nat} (hk : 0 < k)
    (hlo : (decimal lo.natAbs).length ≤ k) (hhi : (decimal hi.natAbs).length ≤ k) : (decimal n.natAbs).length ≤ k := by
  rw [length_decimal_le_iff hk] at hlo hhi ⊢
  omega

/-- The integers between two integers of a column. -/
theorem has_between {t : ServerType} {lo hi n : Int} (hlo : t.Has lo) (hhi : t.Has hi) (hn : lo ≤ n ∧ n ≤ hi) :
    t.Has n := by
  have hbounds : ∀ u : IntegerType, u.Has lo → u.Has hi → u.Has n := fun u hlo hhi =>
    ⟨le_trans hlo.1 hn.1, le_trans hn.2 hhi.2⟩
  cases t with
  | smallint => exact hbounds .short hlo hhi
  | integer => exact hbounds .int hlo hhi
  | bigint => exact hbounds .long hlo hhi
  | numeric => exact length_decimal_between hn (by decide) hlo hhi
  | boolean => exact hlo.elim
  | text => exact hlo.elim
  | bytea => exact hlo.elim

theorem byteaInput_text (v : Bytes) : byteaInput (Bytea.byteaText v) = some v := by
  have hbyte : ∀ n < 256, CopyInput.hexadecimalDigit (hexDigit (UInt8.ofNat n >>> 4)) = some (UInt8.ofNat n >>> 4) ∧
      CopyInput.hexadecimalDigit (hexDigit (UInt8.ofNat n &&& 15)) = some (UInt8.ofNat n &&& 15) ∧
      (16 : UInt8) * (UInt8.ofNat n >>> 4) + (UInt8.ofNat n &&& 15) = UInt8.ofNat n ∧
      hexDigit (UInt8.ofNat n >>> 4) ∉ [space, newline, tab, carriageReturn] := by decide +kernel
  have hdigits : ∀ v : Bytes, hexInput (hexDigits v) = some v := by
    intro v
    induction v with
    | nil => rfl
    | cons c v ih =>
      have h := hbyte c.toNat c.toNat_lt
      rw [UInt8.ofNat_toNat] at h
      obtain ⟨hhigh, hlow, hjoin, hspace⟩ := h
      rw [Bytea.hexDigits_cons, hexInput, if_neg hspace, hhigh, hlow, ih]
      exact congrArg (fun b => some (b :: v)) hjoin
  exact (if_pos rfl).trans (hdigits v)

end ServerType

/-! ### There and back -/

namespace ScalarType

variable {encoded : Bytes → Bool} (fill : Nat → UInt8)

/-- A value of a type goes into a column that it fits into, and is read again from the text that comes back. -/
theorem stored {k : ScalarType} {s : ServerType} {x : Scalar} (hfits : k.Fits s) (hx : k.Has encoded x) :
    s.store encoded x.text = some x.cell ∧ nul ∉ x.cell ∧ k.fromText fill x.cell = .ok x := by
  cases k with
  | bool =>
    obtain rfl : s = .boolean := hfits
    cases x with
    | bool v =>
      refine ⟨?_, ?_, ?_⟩
      · rw [Scalar.text, ServerType.store, ServerType.booleanInput_text]
        rfl
      · cases v <;> decide
      · cases v <;> rfl
    | _ => exact hx.elim
  | char =>
    obtain rfl : s = .text := hfits
    cases x with
    | char v =>
      have hnul : nul ∉ [v] := fun h => hx.1 (List.mem_singleton.1 h).symm
      exact ⟨if_pos ⟨hx.2, hnul⟩, hnul, rfl⟩
    | _ => exact hx.elim
  | integer t =>
    cases x with
    | integer n =>
      have hn : s.Has n := ServerType.has_between hfits.1 hfits.2 hx
      refine ⟨?_, nul_not_mem_toChars n, ?_⟩
      · have hstore : (ServerType.integerInput (toChars n)).bind (fun n => if s.Has n then some (toChars n) else none) =
            some (toChars n) := by
          rw [ServerType.integerInput_toChars]
          exact if_pos hn
        cases s with
        | boolean => exact hn.elim
        | text => exact hn.elim
        | bytea => exact hn.elim
        | _ => exact hstore
      · have hread : t.fromText (toChars n) = .ok n := IntegerType.fromText_of_has (numeral_toChars hx) hx
        rw [Scalar.cell, fromText, hread]
        rfl
    | _ => exact hx.elim
  | string =>
    obtain rfl : s = .text := hfits
    cases x with
    | string v => exact ⟨if_pos ⟨hx.2, hx.1⟩, hx.1, rfl⟩
    | _ => exact hx.elim
  | binary =>
    obtain rfl : s = .bytea := hfits
    cases x with
    | binary v =>
      refine ⟨?_, Bytea.byteaText_nul v, ?_⟩
      · rw [Scalar.text, ServerType.store, ServerType.byteaInput_text]
        rfl
      · rw [Scalar.cell, fromText, Bytea.unescapeBytea_text]
        rfl
    | _ => exact hx.elim

end ScalarType

end TaoPQ
