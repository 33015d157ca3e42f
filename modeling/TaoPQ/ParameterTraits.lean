import TaoPQ.Gen
import TaoPQ.Lib.Bytes
import TaoPQ.Lib.Escaping
import TaoPQ.Lib.Vectors
import Mathlib.Data.Nat.Digits.Defs

/-!
# Parameters as text

How a C++ value becomes an element of an array, and a field of a row for `COPY … FROM STDIN`: `parameter_traits.hpp`
and its specializations for arrays, `std::optional`, `std::pair` and `std::tuple`, and `parameter_traits.cpp`.  All
functions append to a buffer, and each of them is followed by the theorem that says what it appends.
-/

namespace TaoPQ

open Byte Escaping

/-! ### Escaping -/

/-- `std::string_view::find_first_of`: what stands before the first byte of the set, that byte, and what follows. -/
def findFirstOf (set : Bytes) : Bytes → Option (Bytes × UInt8 × Bytes)
  | [] => none
  | b :: s => if b ∈ set then some ([], b, s) else (findFirstOf set s).map fun p => (b :: p.1, p.2)

theorem findFirstOf_none {set s : Bytes} (h : findFirstOf set s = none) : ∀ b ∈ s, b ∉ set := by
  induction s with
  | nil => exact fun b hb => absurd hb List.not_mem_nil
  | cons c s ih =>
    rw [findFirstOf] at h
    split at h
    · cases h
    · rename_i hc
      have hs := ih (Option.map_eq_none_iff.mp h)
      intro b hb
      rcases List.mem_cons.mp hb with rfl | hb
      · exact hc
      · exact hs b hb

theorem findFirstOf_some {set s before after : Bytes} {c : UInt8} (h : findFirstOf set s = some (before, c, after)) :
    s = before ++ c :: after ∧ c ∈ set ∧ ∀ b ∈ before, b ∉ set := by
  induction s generalizing before with
  | nil => cases h
  | cons d s ih =>
    rw [findFirstOf] at h
    split at h
    · rename_i hd
      cases h
      exact ⟨rfl, hd, fun b hb => absurd hb List.not_mem_nil⟩
    · rename_i hd
      obtain ⟨⟨before', rest⟩, hfound, heq⟩ := Option.map_eq_some_iff.mp h
      cases heq
      obtain ⟨rfl, hc, hbefore⟩ := ih hfound
      refine ⟨rfl, hc, fun b hb => ?_⟩
      rcases List.mem_cons.mp hb with rfl | hb
      · exact hd
      · exact hbefore b hb

/-- The loop of `array_append` and of `table_writer_append`. -/
def appendEscaped (set buffer data : Bytes) : Bytes :=
  match _h : findFirstOf set data with
  | none => buffer ++ data
  | some (before, c, after) => appendEscaped set (buffer ++ before ++ [backslash, c]) after
termination_by data.length
decreasing_by
  rw [(findFirstOf_some _h).1]
  simp only [List.length_append, List.length_cons]
  omega

theorem appendEscaped_eq (set buffer data : Bytes) :
    appendEscaped set buffer data = buffer ++ escape backslash set data := by
  fun_induction appendEscaped set buffer data with
  | case1 buffer data hnone => rw [escape_eq_self _ _ (findFirstOf_none hnone)]
  | case2 buffer data before c after hsome ih =>
    obtain ⟨rfl, hc, hbefore⟩ := findFirstOf_some hsome
    rw [ih, escape_append, escape_eq_self _ _ hbefore, escape_cons, if_pos hc]
    simp only [List.append_assoc]

/-- What `table_writer_append` puts a backslash before: `"\b\f\n\r\t\v\\"`. -/
def copySpecial : Bytes := [backspace, formFeed, newline, carriageReturn, tab, verticalTab, backslash]

/-- `internal::table_writer_append` -/
def tableWriterAppend (buffer data : Bytes) : Bytes := appendEscaped copySpecial buffer data

/-- How a null is written. -/
def copyNull : Bytes := backslash :: ascii "N"

/-! ### Elements of arrays -/

/-- What `array_append` puts in quotes: `"\\\"{},; \t"`. -/
def arraySpecial : Bytes := [backslash, quote, openBrace, closeBrace, comma, semicolon, space, tab]

/-- What it puts a backslash before: `"\\\""`. -/
def quotedSpecial : Bytes := [backslash, quote]

/-- The word `NULL`. -/
def nullWord : Bytes := ascii "NULL"

/-- `internal::array_append` -/
def arrayAppend (buffer data : Bytes) : Bytes :=
  if data = [] then buffer ++ [quote, quote]
  else if data = nullWord then buffer ++ quote :: nullWord ++ [quote]
  else if (findFirstOf arraySpecial data).isSome then appendEscaped quotedSpecial (buffer ++ [quote]) data ++ [quote]
  else buffer ++ data

/-- An element that `array_append` writes as it is. -/
def WrittenBare (s : Bytes) : Prop := s ≠ [] ∧ s ≠ nullWord ∧ ∀ b ∈ s, b ∉ arraySpecial

instance (s : Bytes) : Decidable (WrittenBare s) := inferInstanceAs (Decidable (_ ∧ _ ∧ _))

/-- A string between quotes. -/
def quotedText (s : Bytes) : Bytes := quote :: (escape backslash quotedSpecial s ++ [quote])

theorem arrayAppend_eq (buffer data : Bytes) :
    arrayAppend buffer data = buffer ++ if WrittenBare data then data else quotedText data := by
  unfold arrayAppend
  by_cases hempty : data = []
  · rw [if_pos hempty, if_neg fun h => h.1 hempty, hempty]
    rfl
  rw [if_neg hempty]
  by_cases hnull : data = nullWord
  · have hescape : escape backslash quotedSpecial nullWord = nullWord := by decide
    rw [if_pos hnull, if_neg fun h => h.2.1 hnull, hnull, quotedText, hescape]
    simp only [List.cons_append, List.append_assoc]
  rw [if_neg hnull]
  cases hfind : findFirstOf arraySpecial data with
  | none => rw [if_neg (by simp), if_pos ⟨hempty, hnull, findFirstOf_none hfind⟩]
  | some p =>
    obtain ⟨before, c, after⟩ := p
    obtain ⟨hdata, hc, -⟩ := findFirstOf_some hfind
    have hmem : c ∈ data := by rw [hdata]; simp
    rw [if_pos (by simp), if_neg fun h => h.2.2 c hmem hc, appendEscaped_eq, quotedText]
    simp only [List.append_assoc, List.cons_append, List.nil_append]

/-- `std::to_chars` -/
def toChars : Int → Bytes
  | .ofNat n => (Nat.toDigits 10 n).map Char.toUInt8
  | .negSucc n => ascii "-" ++ (Nat.toDigits 10 (n + 1)).map Char.toUInt8

/-- `hex[ n ]` -/
def hexDigit (n : UInt8) : UInt8 := (ascii "0123456789abcdef").getD n.toNat nul

/-- The digits of a byte string. -/
def hexDigits (v : Bytes) : Bytes := v.flatMap fun (c : UInt8) => [hexDigit (c >>> 4), hexDigit (c &&& 15)]

/-- The text of a truth value. -/
def boolText (v : Bool) : Bytes := if v then ascii "TRUE" else ascii "FALSE"

/-- A C++ value with a `parameter_traits`.  An empty `std::optional` knows the number of columns of its type, which is
`extra + 1`, and a tuple has at least one member. -/
inductive Param where
  | null
  | bool (v : Bool)
  | char (v : UInt8)
  | integer (v : Int)
  | string (v : Bytes)
  | binary (v : Bytes)
  | array (v : List Param)
  | nullopt (extra : Nat)
  | optional (v : Param)
  | pair (first second : Param)
  | tuple (first : Param) (rest : List Param)

namespace Param

/-- The end of `to_array`: the comma behind the last element becomes a brace. -/
def closeArray (v : List Param) (data : Bytes) : Bytes :=
  if v.isEmpty then data ++ [closeBrace] else data.dropLast ++ [closeBrace]

mutual

/-- `parameter_traits::element`.  Pairs, and tuples of several members, have none. -/
def element : Param → Bytes → Bytes
  | null, data => data ++ nullWord
  | bool v, data => data ++ boolText v
  | char v, data => arrayAppend data [v]
  | integer v, data => data ++ toChars v
  | string v, data => arrayAppend data v
  | binary v, data => data ++ [backslash, backslash] ++ ascii "x" ++ hexDigits v
  | array v, data => arrayAppend data (closeArray v (toArrayLoop v [openBrace]))
  | nullopt _, data => data ++ nullWord
  | optional v, data => element v data
  | pair _ _, data => data
  | tuple first [], data => element first data
  | tuple _ (_ :: _), data => data

/-- The loop of `internal::to_array`, which calls the overload for arrays for an element that is one. -/
def toArrayLoop : List Param → Bytes → Bytes
  | [], data => data
  | array v :: es, data => toArrayLoop es (closeArray v (toArrayLoop v (data ++ [openBrace])) ++ [comma])
  | e :: es, data => toArrayLoop es (element e data ++ [comma])

end

/-- `internal::to_array` -/
def toArray : Param → Bytes → Bytes
  | array v, data => closeArray v (toArrayLoop v (data ++ [openBrace]))
  | e, data => element e data

/-- The text that `to_array` appends. -/
def arrayText (v : Param) : Bytes := toArray v []

/-! ### Fields of rows -/

mutual

/-- `parameter_traits::columns` -/
def columns : Param → Nat
  | nullopt extra => extra + 1
  | optional v => columns v
  | pair first second => columns first + columns second
  | tuple first rest => columns first + (columnsOf rest).sum
  | _ => 1

/-- `parameter_traits< Ts >::columns...` -/
def columnsOf : List Param → List Nat
  | [] => []
  | v :: vs => columns v :: columnsOf vs

end

mutual

/-- `parameter_traits::copy_to< I >` -/
def copyTo : Param → Nat → Bytes → Bytes
  | null, _, data => data ++ copyNull
  | bool v, _, data => data ++ boolText v
  | char v, _, data => tableWriterAppend data [v]
  | integer v, _, data => data ++ toChars v
  | string v, _, data => tableWriterAppend data v
  | binary v, _, data => element (binary v) data
  | array v, _, data => tableWriterAppend data (arrayText (array v))
  | nullopt _, _, data => data ++ copyNull
  | optional v, I, data => copyTo v I data
  | pair first second, I, data =>
    match Gen.outer [columns first, columns second] I with
    | 0 => copyTo first (Gen.inner [columns first, columns second] I) data
    | _ => copyTo second (Gen.inner [columns first, columns second] I) data
  | tuple first rest, I, data =>
    match Gen.outer (columns first :: columnsOf rest) I with
    | 0 => copyTo first (Gen.inner (columns first :: columnsOf rest) I) data
    | O + 1 => copyMember rest O (Gen.inner (columns first :: columnsOf rest) I) data

/-- `std::get< O >( ts ).template copy_to< I >` -/
def copyMember : List Param → Nat → Nat → Bytes → Bytes
  | [], _, _, data => data
  | v :: _, 0, I, data => copyTo v I data
  | _ :: vs, O + 1, I, data => copyMember vs O I data

end

end Param

end TaoPQ
