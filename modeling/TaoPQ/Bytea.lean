import TaoPQ.ArrayParameters
import TaoPQ.ResultTypes
import TaoPQ.TableWriter

/-!
# Byte strings

`parameter_traits< binary_view >::element` writes the text of a `bytea`, with a backslash that array input and COPY
input take away again; `result_traits< binary >::from` reads such a text.  Both resize their target without
initializing it, and then write at positions that they compute.  They are inverse to each other, and every text that
`element` would not have written is refused (`bytea_inverse`).
-/

namespace TaoPQ

open Byte Exec

namespace Bytea

variable {ε : Type}

/-! ### Memory -/

/-- `internal::resize_uninitialized`: behind the old bytes there is what was in the memory. -/
def resizeUninitialized (fill : Nat → UInt8) (v : Bytes) (n : Nat) : Bytes :=
  (List.range n).map fun i => v.getD i (fill i)

/-- `data[ pos ] = b` -/
def put (pos : Nat) (b : UInt8) : Exec Bytes ε Unit := fun data =>
  if pos < data.length then .ret () (data.set pos b) else .undefined

/-- `value[ i ]` -/
def valueAt (i : Nat) : Exec Bytes ε UInt8 := fun m =>
  match m[i]? with
  | some b => .ret b m
  | none => .undefined

/-- The string at `value`, up to its end, which has to be there. -/
def text : Exec Bytes ε Bytes := fun m => if nul ∈ m then .ret (stringAt m) m else .undefined

/-- `std::strlen( value )` -/
def strlen : Exec Bytes ε Nat := do
  let s ← text
  return s.length

/-- `a - b` for `std::size_t` -/
def sizeSub (a b : Nat) : Nat := if b ≤ a then a - b else 2 ^ 64 + a - b

/-! ### Writing -/

/-- The loop of `element`. -/
def elementLoop : Bytes → Nat → Exec Bytes ε Unit
  | [], _ => return ()
  | c :: v, pos => do
    put pos (hexDigit (c >>> 4))
    put (pos + 1) (hexDigit (c &&& 15))
    elementLoop v (pos + 2)

variable (fill : Nat → UInt8)

/-- `parameter_traits< binary_view >::element` -/
def element (v : Bytes) : Exec Bytes ε Unit := do
  let data ← Exec.get
  let pos := data.length
  Exec.modify fun data => resizeUninitialized fill data (pos + 3 + 2 * v.length)
  put pos backslash
  put (pos + 1) backslash
  put (pos + 2) 120
  elementLoop v (pos + 3)

/-- `parameter_traits< binary_view >::copy_to` -/
def copyTo (v : Bytes) : Exec Bytes ε Unit := element fill v

/-! ### Reading -/

/-- `unhex` -/
def unhex (c : UInt8) : Exec Bytes LeafError Nat :=
  if 48 ≤ c ∧ c ≤ 57 then return c.toNat - 48
  else if 97 ≤ c ∧ c ≤ 102 then return c.toNat - 97 + 10
  else Exec.throw (.invalidArgument (ascii "unhex failed"))

/-- The exception of `unescape_bytea`. -/
def unescapeFailed {α : Type} : Exec Bytes LeafError α := do
  let value ← text
  Exec.throw (.invalidArgument (ascii "unescape BYTEA failed: " ++ value))

/-- The loop of `unescape_bytea`. -/
def unescapeLoop (size : Nat) : (fuel pos : Nat) → Bytes → Exec Bytes LeafError Bytes
  | 0, _, _ => Exec.undefined
  | fuel + 1, pos, nrv =>
    if pos < size then do
      let c ← valueAt (2 + 2 * pos)
      let high ← unhex c
      let d ← valueAt (2 + 2 * pos + 1)
      let low ← unhex d
      if pos < nrv.length then unescapeLoop size fuel (pos + 1) (nrv.set pos (UInt8.ofNat (high <<< 4 ||| low)))
      else Exec.undefined
    else return nrv

/-- `unescape_bytea`, which is `result_traits< binary >::from`. -/
def unescapeBytea : Exec Bytes LeafError Bytes := do
  let b ← valueAt 0
  if b ≠ backslash then unescapeFailed
  else do
    let c ← valueAt 1
    if c ≠ 120 then unescapeFailed
    else do
      let input ← strlen
      if input % 2 = 1 then unescapeFailed
      else do
        let size := sizeSub (input / 2) 1
        unescapeLoop size (size + 1) 0 (resizeUninitialized fill [] size)

/-! ### Texts -/

/-- The digits of byte strings. -/
def lowerHex : Bytes := ascii "0123456789abcdef"

/-- The texts of byte strings. -/
def IsBytea (s : Bytes) : Prop :=
  ∃ digits, s = backslash :: 120 :: digits ∧ digits.length % 2 = 0 ∧ ∀ d ∈ digits, d ∈ lowerHex

/-- One level of backslashes is taken away. -/
def unescapeOnce : Bytes → Bytes
  | [] => []
  | [b] => [b]
  | b :: c :: s => if b = backslash then c :: unescapeOnce s else b :: unescapeOnce (c :: s)

/-- What is appended for `b` is taken for one element by array input, and for one field by COPY input, and its value is
read as `b`. -/
def DecodesBack (b data : Bytes) : Prop :=
  ∃ t, (element fill b : Exec Bytes LeafError Unit) data = .ret () (data ++ t) ∧
    (copyTo fill b : Exec Bytes LeafError Unit) data = .ret () (data ++ t) ∧
    ArrayInput.parse (openBrace :: (t ++ [closeBrace])) = some (.array [.element (some (unescapeOnce t))]) ∧
    CopyInput.field t = some (unescapeOnce t) ∧
    unescapeBytea fill (cString (unescapeOnce t)) = .ret b (cString (unescapeOnce t))

/-- A text is read and written again as it was, or it is refused. -/
def EncodesBack (s data : Bytes) : Prop :=
  (IsBytea s ∧ ∃ v t, unescapeBytea fill (cString s) = .ret v (cString s) ∧
    (element fill v : Exec Bytes LeafError Unit) data = .ret () (data ++ t) ∧ unescapeOnce t = s) ∨
  ¬ IsBytea s ∧ ∃ what, unescapeBytea fill (cString s) = .throw (.invalidArgument what) (cString s)

/-! ### Positions -/

theorem resizeUninitialized_append (v : Bytes) (k : Nat) :
    ∃ g : Bytes, g.length = k ∧ resizeUninitialized fill v (v.length + k) = v ++ g := by
  have hold : (List.range v.length).map (fun i => v.getD i (fill i)) = v := by
    refine List.ext_getElem (by simp) fun i h _ => ?_
    have hi : i < v.length := by simpa using h
    simp [hi]
  refine ⟨((List.range k).map (v.length + ·)).map fun i => v.getD i (fill i), by simp, ?_⟩
  rw [resizeUninitialized, List.range_add, List.map_append, hold]

theorem exists_cons_cons {g : Bytes} {k : Nat} (h : g.length = k + 2) :
    ∃ x y g', g = x :: y :: g' ∧ g'.length = k := by
  obtain ⟨x, g, rfl⟩ := List.exists_cons_of_length_pos (show 0 < g.length by omega)
  obtain ⟨y, g, rfl⟩ := List.exists_cons_of_length_pos (show 0 < g.length by simp at h; omega)
  exact ⟨x, y, g, rfl, by simpa using h⟩

theorem put_append (done g : Bytes) (b c : UInt8) :
    (put done.length b : Exec Bytes ε Unit) (done ++ c :: g) = .ret () (done ++ b :: g) := by
  unfold put
  rw [if_pos (by simp), List.set_append_right _ _ (le_refl _), Nat.sub_self, List.set_cons_zero]

theorem valueAt_drop {m rest : Bytes} {p : Nat} {b : UInt8} (h : m.drop p = b :: rest) :
    (valueAt p : Exec Bytes ε UInt8) m = .ret b m := by
  have hb : m[p]? = some b := by
    have hget := congrArg (fun l => l[0]?) h
    simpa [List.getElem?_drop] using hget
  unfold valueAt
  rw [hb]

theorem text_cString {s : Bytes} (hs : nul ∉ s) : (text : Exec Bytes ε Bytes) (cString s) = .ret s (cString s) := by
  unfold text
  rw [if_pos (by simp [cString]), stringAt_cString hs]

theorem unescapeFailed_cString {α : Type} {s : Bytes} (hs : nul ∉ s) : (unescapeFailed : Exec Bytes LeafError α)
    (cString s) = .throw (.invalidArgument (ascii "unescape BYTEA failed: " ++ s)) (cString s) := by
  rw [unescapeFailed, bind_ret (text_cString hs)]
  rfl

/-! ### What is written -/

/-- The text of a `bytea`. -/
def byteaText (v : Bytes) : Bytes := backslash :: 120 :: hexDigits v

theorem hexDigits_cons (c : UInt8) (v : Bytes) :
    hexDigits (c :: v) = hexDigit (c >>> 4) :: hexDigit (c &&& 15) :: hexDigits v := rfl

theorem length_hexDigits (v : Bytes) : (hexDigits v).length = 2 * v.length := by
  induction v with
  | nil => rfl
  | cons c v ih =>
    rw [hexDigits_cons, List.length_cons, List.length_cons, ih, List.length_cons]
    omega

theorem elementLoop_eq (v done g : Bytes) (hg : g.length = 2 * v.length) :
    (elementLoop v done.length : Exec Bytes ε Unit) (done ++ g) = .ret () (done ++ hexDigits v) := by
  induction v generalizing done g with
  | nil =>
    obtain rfl := List.length_eq_zero_iff.1 hg
    rfl
  | cons c v ih =>
    obtain ⟨x, y, g, rfl, hrest⟩ := exists_cons_cons (show g.length = 2 * v.length + 2 from hg)
    have hsecond : (put (done.length + 1) (hexDigit (c &&& 15)) : Exec Bytes ε Unit)
        (done ++ hexDigit (c >>> 4) :: y :: g) =
          .ret () (done ++ hexDigit (c >>> 4) :: hexDigit (c &&& 15) :: g) := by
      have hput := put_append (ε := ε) (done ++ [hexDigit (c >>> 4)]) g (hexDigit (c &&& 15)) y
      simpa using hput
    have hloop := ih (done ++ [hexDigit (c >>> 4), hexDigit (c &&& 15)]) g hrest
    rw [List.length_append, List.append_assoc, List.append_assoc] at hloop
    rw [elementLoop, bind_ret (put_append done (y :: g) _ x), bind_ret hsecond]
    exact hloop

/-- Every position is written to, so that nothing is left of what was in the memory. -/
theorem element_eq (v data : Bytes) :
    (element fill v : Exec Bytes ε Unit) data = .ret () (data ++ backslash :: byteaText v) := by
  obtain ⟨g, hg, hresize⟩ := resizeUninitialized_append fill data (3 + 2 * v.length)
  obtain ⟨x, g, rfl⟩ := List.exists_cons_of_length_pos (show 0 < g.length by omega)
  obtain ⟨y, z, g, rfl, hrest⟩ := exists_cons_cons (show g.length = 2 * v.length + 2 by simp at hg; omega)
  have hsecond : (put (data.length + 1) backslash : Exec Bytes ε Unit) (data ++ backslash :: y :: z :: g) =
      .ret () (data ++ backslash :: backslash :: z :: g) := by
    have hput := put_append (ε := ε) (data ++ [backslash]) (z :: g) backslash y
    simpa using hput
  have hthird : (put (data.length + 2) 120 : Exec Bytes ε Unit) (data ++ backslash :: backslash :: z :: g) =
      .ret () (data ++ backslash :: backslash :: 120 :: g) := by
    have hput := put_append (ε := ε) (data ++ [backslash, backslash]) g 120 z
    simpa using hput
  have hloop := elementLoop_eq (ε := ε) v (data ++ [backslash, backslash, 120]) g hrest
  rw [List.length_append, List.append_assoc, List.append_assoc] at hloop
  show ((put data.length backslash >>= fun _ => put (data.length + 1) backslash >>= fun _ =>
    put (data.length + 2) 120 >>= fun _ => elementLoop v (data.length + 3)) : Exec Bytes ε Unit)
      (resizeUninitialized fill data (data.length + 3 + 2 * v.length)) = _
  rw [Nat.add_assoc, hresize, bind_ret (put_append data (y :: z :: g) backslash x), bind_ret hsecond, bind_ret hthird]
  exact hloop

/-- The text that is modelled for parameters. -/
theorem element_eq_param (v data : Bytes) :
    (element fill v : Exec Bytes ε Unit) data = .ret () (Param.element (.binary v) data) := by
  rw [element_eq, Param.element, List.append_assoc, List.append_assoc]
  rfl

/-! ### What the server makes of it -/

theorem unescapeOnce_of_plain {s : Bytes} (hs : backslash ∉ s) : unescapeOnce s = s := by
  induction s with
  | nil => rfl
  | cons b s ih =>
    have hb : b ≠ backslash := fun h => hs (h ▸ List.mem_cons_self)
    have hrest := ih fun h => hs (List.mem_cons_of_mem b h)
    cases s with
    | nil => rfl
    | cons c s => rw [unescapeOnce, if_neg hb, hrest]

theorem hexDigits_plain (v : Bytes) : backslash ∉ hexDigits v := fun h =>
  Param.hexDigits_not_special v backslash h (by decide)

theorem unescapeOnce_element (v : Bytes) : unescapeOnce (backslash :: byteaText v) = byteaText v := by
  have hplain : backslash ∉ 120 :: hexDigits v := fun h => by
    rcases List.mem_cons.1 h with h | h
    · exact absurd h (by decide)
    · exact hexDigits_plain v h
  rw [byteaText, unescapeOnce, if_pos rfl, unescapeOnce_of_plain hplain]

theorem copyInput_element (v : Bytes) : CopyInput.field (backslash :: byteaText v) = some (byteaText v) := by
  have htext : backslash :: byteaText v = Param.fieldText (some (byteaText v)) := by
    have h := Param.fieldText_binary v
    rw [List.append_assoc] at h
    exact h.symm
  rw [htext, CopyInput.field_fieldText]

/-- Behind an escape, an element without quotes goes on to its end. -/
theorem run_escaped (s u : Bytes) (stack : List (List ArrayValue)) (hs : ∀ b ∈ s, b ∈ lowerHex) :
    ArrayInput.run ⟨.bare u [] true, stack⟩ s = some ⟨.bare (u ++ s) [] true, stack⟩ := by
  induction s generalizing u with
  | nil => simp
  | cons b s ih =>
    obtain ⟨hb, hrest⟩ := List.forall_mem_cons.1 hs
    have hplain : ∀ b ∈ lowerHex, ¬ isSpace b ∧ ¬ (b = comma ∨ b = closeBrace) ∧ b ≠ backslash ∧
        ¬ (b = quote ∨ b = openBrace) := by decide
    obtain ⟨hspace, hdelim, hbackslash, hquote⟩ := hplain b hb
    have hstep : ArrayInput.step ⟨.bare u [] true, stack⟩ b = some ⟨.bare (u ++ [b]) [] true, stack⟩ := by
      simp only [ArrayInput.step]
      rw [if_neg hspace, if_neg hdelim, if_neg hbackslash, if_neg hquote, List.append_nil]
    rw [ArrayInput.run_cons, hstep, Option.bind_some, ih (u ++ [b]) hrest, List.append_assoc]
    rfl

theorem hexDigit_mem {n : UInt8} (hn : n.toNat < 16) : hexDigit n ∈ lowerHex := by
  have hlt : n.toNat < (ascii "0123456789abcdef").length := hn
  rw [hexDigit, List.getD_eq_getElem _ _ hlt]
  exact List.getElem_mem hlt

/-- The two halves of a byte. -/
theorem halves_lt (c : UInt8) : (c >>> 4).toNat < 16 ∧ (c &&& 15).toNat < 16 := by
  have hall : ∀ n < 256, (UInt8.ofNat n >>> 4).toNat < 16 ∧ (UInt8.ofNat n &&& 15).toNat < 16 := by decide +kernel
  have h := hall c.toNat c.toNat_lt
  rwa [UInt8.ofNat_toNat] at h

theorem hexDigits_mem (v : Bytes) : ∀ b ∈ hexDigits v, b ∈ lowerHex := by
  induction v with
  | nil => simp [hexDigits]
  | cons c v ih =>
    rw [hexDigits_cons]
    obtain ⟨hhigh, hlow⟩ := halves_lt c
    exact List.forall_mem_cons.2 ⟨hexDigit_mem hhigh, List.forall_mem_cons.2 ⟨hexDigit_mem hlow, ih⟩⟩

theorem arrayInput_element (v : Bytes) : ArrayInput.parse (openBrace :: (backslash :: byteaText v ++ [closeBrace])) =
    some (.array [.element (some (byteaText v))]) := by
  have hbegin : ArrayInput.run ⟨.start, []⟩ (openBrace :: (backslash :: byteaText v ++ [closeBrace])) =
      ArrayInput.run ⟨.bare [backslash, 120] [] true, [[]]⟩ (hexDigits v ++ [closeBrace]) := rfl
  have hend : ArrayInput.run ⟨.bare (byteaText v) [] true, [[]]⟩ [closeBrace] =
      some ⟨.finished (.array [.element (some (byteaText v))]), []⟩ := rfl
  have hdigits := run_escaped (hexDigits v) [backslash, 120] [[]] (hexDigits_mem v)
  have hrun : ArrayInput.run ⟨.start, []⟩ (openBrace :: (backslash :: byteaText v ++ [closeBrace])) =
      some ⟨.finished (.array [.element (some (byteaText v))]), []⟩ := by
    rw [hbegin, ArrayInput.run_append, hdigits]
    exact hend
  rw [ArrayInput.parse, hrun]

/-! ### What is read -/

theorem unhex_hexDigit {n : UInt8} (hn : n.toNat < 16) (m : Bytes) : unhex (hexDigit n) m = .ret n.toNat m := by
  have hall : ∀ k < 16, (48 ≤ hexDigit (UInt8.ofNat k) ∧ hexDigit (UInt8.ofNat k) ≤ 57 ∧
      (hexDigit (UInt8.ofNat k)).toNat - 48 = k) ∨ ¬ (48 ≤ hexDigit (UInt8.ofNat k) ∧ hexDigit (UInt8.ofNat k) ≤ 57) ∧
        97 ≤ hexDigit (UInt8.ofNat k) ∧ hexDigit (UInt8.ofNat k) ≤ 102 ∧
          (hexDigit (UInt8.ofNat k)).toNat - 97 + 10 = k := by decide
  have h := hall n.toNat hn
  rw [UInt8.ofNat_toNat] at h
  unfold unhex
  rcases h with ⟨hlo, hhi, hvalue⟩ | ⟨hdecimal, hlo, hhi, hvalue⟩
  · rw [if_pos ⟨hlo, hhi⟩, hvalue]
    rfl
  · rw [if_neg hdecimal, if_pos ⟨hlo, hhi⟩, hvalue]
    rfl

/-- A character that is no digit is refused. -/
theorem unhex_throws {c : UInt8} (hc : c ∉ lowerHex) (m : Bytes) :
    unhex c m = .throw (.invalidArgument (ascii "unhex failed")) m := by
  have hall : ∀ n < 256, UInt8.ofNat n ∉ lowerHex → ¬ (48 ≤ UInt8.ofNat n ∧ UInt8.ofNat n ≤ 57) ∧
      ¬ (97 ≤ UInt8.ofNat n ∧ UInt8.ofNat n ≤ 102) := by decide +kernel
  have h := hall c.toNat c.toNat_lt
  rw [UInt8.ofNat_toNat] at h
  obtain ⟨hdecimal, hletter⟩ := h hc
  unfold unhex
  rw [if_neg hdecimal, if_neg hletter]
  rfl

/-- Every digit has a value. -/
theorem exists_hexDigit {c : UInt8} (hc : c ∈ lowerHex) : ∃ k < 16, hexDigit (UInt8.ofNat k) = c := by
  have hall : ∀ c ∈ lowerHex, ∃ k < 16, hexDigit (UInt8.ofNat k) = c := by decide
  exact hall c hc

/-- The halves of a byte make up the byte. -/
theorem join_halves (c : UInt8) : UInt8.ofNat ((c >>> 4).toNat <<< 4 ||| (c &&& 15).toNat) = c := by
  have hall : ∀ n < 256, UInt8.ofNat ((UInt8.ofNat n >>> 4).toNat <<< 4 ||| (UInt8.ofNat n &&& 15).toNat) =
      UInt8.ofNat n := by decide +kernel
  have h := hall c.toNat c.toNat_lt
  rwa [UInt8.ofNat_toNat] at h

/-- Two digits are those of a byte. -/
theorem exists_byte {h l : UInt8} (hh : h ∈ lowerHex) (hl : l ∈ lowerHex) :
    ∃ c : UInt8, hexDigit (c >>> 4) = h ∧ hexDigit (c &&& 15) = l := by
  have hall : ∀ i < 16, ∀ j < 16, UInt8.ofNat (16 * i + j) >>> 4 = UInt8.ofNat i ∧
      UInt8.ofNat (16 * i + j) &&& 15 = UInt8.ofNat j := by decide +kernel
  obtain ⟨i, hi, rfl⟩ := exists_hexDigit hh
  obtain ⟨j, hj, rfl⟩ := exists_hexDigit hl
  obtain ⟨hhigh, hlow⟩ := hall i hi j hj
  exact ⟨UInt8.ofNat (16 * i + j), by rw [hhigh], by rw [hlow]⟩

/-- An even number of digits are those of a byte string. -/
theorem exists_hexDigits {digits : Bytes} (hlength : digits.length % 2 = 0) (hdigits : ∀ d ∈ digits, d ∈ lowerHex) :
    ∃ v, hexDigits v = digits := by
  induction hn : digits.length using Nat.strong_induction_on generalizing digits with
  | _ n ih =>
    subst hn
    cases digits with
    | nil => exact ⟨[], rfl⟩
    | cons h digits =>
      obtain ⟨l, digits, rfl⟩ := List.exists_cons_of_length_pos (show 0 < digits.length by simp at hlength; omega)
      obtain ⟨hh, hrest⟩ := List.forall_mem_cons.1 hdigits
      obtain ⟨hl, hrest⟩ := List.forall_mem_cons.1 hrest
      obtain ⟨v, rfl⟩ := ih digits.length (by simp only [List.length_cons]; omega) (by simp at hlength; omega) hrest rfl
      obtain ⟨c, hhigh, hlow⟩ := exists_byte hh hl
      exact ⟨c :: v, by rw [hexDigits_cons, hhigh, hlow]⟩

/-- What remains to be read of the digits is written behind what has been read. -/
theorem unescapeLoop_digits (v done g : Bytes) {m rest : Bytes}
    (hm : m.drop (2 + 2 * done.length) = hexDigits v ++ rest)
    (hg : g.length = v.length) (fuel : Nat) (hfuel : v.length < fuel) :
    unescapeLoop (done.length + v.length) fuel done.length (done ++ g) m = .ret (done ++ v) m := by
  induction v generalizing done g fuel with
  | nil =>
    obtain ⟨fuel, rfl⟩ : ∃ n, fuel = n + 1 := ⟨fuel - 1, by omega⟩
    obtain rfl := List.length_eq_zero_iff.1 hg
    rw [unescapeLoop, if_neg (by simp)]
    rfl
  | cons c v ih =>
    obtain ⟨fuel, rfl⟩ : ∃ n, fuel = n + 1 := ⟨fuel - 1, by omega⟩
    obtain ⟨x, g, rfl⟩ := List.exists_cons_of_length_pos (show 0 < g.length by simp at hg; omega)
    obtain ⟨hhigh, hlow⟩ := halves_lt c
    have hnext : m.drop (2 + 2 * done.length + 1) = hexDigit (c &&& 15) :: (hexDigits v ++ rest) := by
      rw [← List.drop_drop, hm]
      rfl
    have hbehind : m.drop (2 + 2 * (done ++ [c]).length) = hexDigits v ++ rest := by
      have hpos : 2 + 2 * (done ++ [c]).length = 2 + 2 * done.length + 2 := by
        simp
        omega
      rw [hpos, ← List.drop_drop, hm]
      rfl
    have hset : (done ++ x :: g).set done.length c = done ++ [c] ++ g := by
      rw [List.set_append_right _ _ (le_refl _), Nat.sub_self, List.set_cons_zero]
      simp
    have hsize : done.length + (c :: v).length = done.length + 1 + v.length := by
      simp
      omega
    have hdone : (done ++ [c]).length = done.length + 1 := by simp
    have hresult : done ++ [c] ++ v = done ++ c :: v := by simp
    have hloop := ih (done ++ [c]) g hbehind (by simpa using hg) fuel (by simp at hfuel; omega)
    rw [hdone, hresult] at hloop
    rw [unescapeLoop, if_pos (by simp), bind_ret (valueAt_drop hm), bind_ret (unhex_hexDigit hhigh m),
      bind_ret (valueAt_drop hnext), bind_ret (unhex_hexDigit hlow m), if_pos (by simp), join_halves, hset, hsize]
    exact hloop

/-- The first character that is no digit is refused. -/
theorem unescapeLoop_throws {k : Nat} {digits m rest nrv : Bytes} {pos size : Nat}
    (hm : m.drop (2 + 2 * pos) = digits ++ rest) (hlength : digits.length = 2 * k) (hsize : size = pos + k)
    (hnrv : nrv.length = size) (hbad : ¬ ∀ d ∈ digits, d ∈ lowerHex) (fuel : Nat) (hfuel : k < fuel) :
    unescapeLoop size fuel pos nrv m = .throw (.invalidArgument (ascii "unhex failed")) m := by
  induction k generalizing digits nrv pos fuel with
  | zero =>
    obtain rfl := List.length_eq_zero_iff.1 hlength
    exact absurd (List.forall_mem_nil _) hbad
  | succ k ih =>
    obtain ⟨fuel, rfl⟩ : ∃ n, fuel = n + 1 := ⟨fuel - 1, by omega⟩
    obtain ⟨h, l, digits, rfl, hrest⟩ := exists_cons_cons (show digits.length = 2 * k + 2 by omega)
    have hnext : m.drop (2 + 2 * pos + 1) = l :: (digits ++ rest) := by
      rw [← List.drop_drop, hm]
      rfl
    have hbehind : m.drop (2 + 2 * (pos + 1)) = digits ++ rest := by
      have hpos : 2 + 2 * (pos + 1) = 2 + 2 * pos + 2 := by omega
      rw [hpos, ← List.drop_drop, hm]
      rfl
    rw [unescapeLoop, if_pos (by omega), bind_ret (valueAt_drop hm)]
    by_cases hh : h ∈ lowerHex
    · obtain ⟨i, hi, rfl⟩ := exists_hexDigit hh
      have hhigh : (UInt8.ofNat i).toNat < 16 := by
        rw [UInt8.toNat_ofNat']
        omega
      rw [bind_ret (unhex_hexDigit hhigh m), bind_ret (valueAt_drop hnext)]
      by_cases hl : l ∈ lowerHex
      · obtain ⟨j, hj, rfl⟩ := exists_hexDigit hl
        have hlow : (UInt8.ofNat j).toNat < 16 := by
          rw [UInt8.toNat_ofNat']
          omega
        rw [bind_ret (unhex_hexDigit hlow m), if_pos (by omega)]
        refine ih hbehind hrest (by omega) (by simpa using hnrv) (fun hgood => hbad ?_) fuel (by omega)
        exact List.forall_mem_cons.2 ⟨hh, List.forall_mem_cons.2 ⟨hl, hgood⟩⟩
      · rw [bind_throw (unhex_throws hl m)]
    · rw [bind_throw (unhex_throws hh m)]

/-- Behind the prefix, and with an even number of characters, the loop decides. -/
theorem unescapeBytea_prefix {digits : Bytes} (hnul : nul ∉ backslash :: 120 :: digits)
    (heven : digits.length % 2 = 0) :
    ∃ nrv : Bytes, nrv.length = digits.length / 2 ∧ unescapeBytea fill (cString (backslash :: 120 :: digits)) =
      unescapeLoop (digits.length / 2) (digits.length / 2 + 1) 0 nrv (cString (backslash :: 120 :: digits)) := by
  obtain ⟨nrv, hnrv, hresize⟩ := resizeUninitialized_append fill [] (digits.length / 2)
  have hfirst : (valueAt 0 : Exec Bytes LeafError UInt8) (cString (backslash :: 120 :: digits)) =
      .ret backslash _ := rfl
  have hsecond : (valueAt 1 : Exec Bytes LeafError UInt8) (cString (backslash :: 120 :: digits)) = .ret 120 _ := rfl
  have hstrlen : (strlen : Exec Bytes LeafError Nat) (cString (backslash :: 120 :: digits)) =
      .ret (digits.length + 2) (cString (backslash :: 120 :: digits)) := by
    rw [strlen, bind_ret (text_cString hnul)]
    rfl
  have hsize : sizeSub ((digits.length + 2) / 2) 1 = digits.length / 2 := by
    rw [sizeSub, if_pos (by omega)]
    omega
  refine ⟨nrv, hnrv, ?_⟩
  rw [List.length_nil, Nat.zero_add, List.nil_append] at hresize
  rw [unescapeBytea, bind_ret hfirst, if_neg (by decide), bind_ret hsecond, if_neg (by decide), bind_ret hstrlen,
    if_neg (by omega)]
  simp only [hsize, hresize]

theorem byteaText_nul (v : Bytes) : nul ∉ byteaText v := by
  intro h
  have hdigits : ∀ d ∈ lowerHex, d ≠ nul := by decide
  rcases List.mem_cons.1 h with h | h
  · exact absurd h (by decide)
  · rcases List.mem_cons.1 h with h | h
    · exact absurd h (by decide)
    · exact hdigits nul (hexDigits_mem v nul h) rfl

/-- The text of a byte string is read as this byte string. -/
theorem unescapeBytea_text (v : Bytes) :
    unescapeBytea fill (cString (byteaText v)) = .ret v (cString (byteaText v)) := by
  have hlength := length_hexDigits v
  obtain ⟨nrv, hnrv, hloop⟩ := unescapeBytea_prefix fill (byteaText_nul v) (by omega)
  have hhalf : (hexDigits v).length / 2 = v.length := by omega
  rw [hhalf] at hloop hnrv
  have hdrop : (cString (byteaText v)).drop (2 + 2 * ([] : Bytes).length) = hexDigits v ++ [nul] := rfl
  have hread := unescapeLoop_digits v [] nrv hdrop hnrv (v.length + 1) (Nat.lt_succ_self _)
  rw [List.length_nil, Nat.zero_add] at hread
  exact hloop.trans hread

theorem isBytea_iff (s : Bytes) : IsBytea s ↔ ∃ v, byteaText v = s := by
  constructor
  · rintro ⟨digits, rfl, hlength, hdigits⟩
    obtain ⟨v, rfl⟩ := exists_hexDigits hlength hdigits
    exact ⟨v, rfl⟩
  · rintro ⟨v, rfl⟩
    exact ⟨hexDigits v, rfl, by rw [length_hexDigits]; omega, hexDigits_mem v⟩

/-- All other texts are refused. -/
theorem unescapeBytea_throws {s : Bytes} (hs : nul ∉ s) (h : ¬ IsBytea s) :
    ∃ what, unescapeBytea fill (cString s) = .throw (.invalidArgument what) (cString s) := by
  cases s with
  | nil => exact ⟨_, unescapeFailed_cString hs⟩
  | cons b s =>
    have hfirst : (valueAt 0 : Exec Bytes LeafError UInt8) (cString (b :: s)) = .ret b (cString (b :: s)) := rfl
    rw [unescapeBytea, bind_ret hfirst]
    by_cases hb : b = backslash
    · subst hb
      rw [if_neg (not_not.2 rfl)]
      cases s with
      | nil =>
        have hsecond : (valueAt 1 : Exec Bytes LeafError UInt8) (cString [backslash]) = .ret nul _ := rfl
        rw [bind_ret hsecond, if_pos (by decide)]
        exact ⟨_, unescapeFailed_cString hs⟩
      | cons c digits =>
        have hsecond : (valueAt 1 : Exec Bytes LeafError UInt8) (cString (backslash :: c :: digits)) = .ret c _ := rfl
        rw [bind_ret hsecond]
        by_cases hc : c = 120
        · subst hc
          by_cases heven : digits.length % 2 = 0
          · obtain ⟨nrv, hnrv, hloop⟩ := unescapeBytea_prefix fill hs heven
            have hbad : ¬ ∀ d ∈ digits, d ∈ lowerHex := fun hdigits => h ⟨digits, rfl, heven, hdigits⟩
            have hdrop : (cString (backslash :: 120 :: digits)).drop (2 + 2 * 0) = digits ++ [nul] := rfl
            have hread := unescapeLoop_throws hdrop (show digits.length = 2 * (digits.length / 2) by omega)
              (Nat.zero_add _).symm hnrv hbad (digits.length / 2 + 1) (Nat.lt_succ_self _)
            rw [unescapeBytea, bind_ret hfirst, if_neg (not_not.2 rfl), bind_ret hsecond] at hloop
            exact ⟨_, hloop.trans hread⟩
          · have hstrlen : (strlen : Exec Bytes LeafError Nat) (cString (backslash :: 120 :: digits)) =
                .ret (digits.length + 2) (cString (backslash :: 120 :: digits)) := by
              rw [strlen, bind_ret (text_cString hs)]
              rfl
            rw [if_neg (by decide), bind_ret hstrlen, if_pos (by omega)]
            exact ⟨_, unescapeFailed_cString hs⟩
        · rw [if_pos hc]
          exact ⟨_, unescapeFailed_cString hs⟩
    · rw [if_pos hb]
      exact ⟨_, unescapeFailed_cString hs⟩

/-- What `element` writes is read as what it was written for, and what `from` reads is written again as it was. -/
theorem bytea_inverse (b data : Bytes) {s : Bytes} (hs : nul ∉ s) :
    DecodesBack fill b data ∧ EncodesBack fill s data := by
  constructor
  · refine ⟨backslash :: byteaText b, element_eq fill b data, element_eq fill b data, ?_⟩
    rw [unescapeOnce_element]
    exact ⟨arrayInput_element b, copyInput_element b, unescapeBytea_text fill b⟩
  · by_cases h : IsBytea s
    · obtain ⟨v, rfl⟩ := (isBytea_iff s).1 h
      exact .inl ⟨h, v, _, unescapeBytea_text fill v, element_eq fill v data, unescapeOnce_element v⟩
    · exact .inr ⟨h, unescapeBytea_throws fill hs h⟩

/-- A text with capital letters is one of those that are refused. -/
theorem bytea_inverse_sample :
    DecodesBack (fun _ => 255) [0, 222, 173] (ascii "1,") ∧ EncodesBack (fun _ => 255) (ascii "\\xDEAD") (ascii "1,") :=
  bytea_inverse _ _ _ (by decide)

end Bytea

end TaoPQ
