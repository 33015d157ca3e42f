import TaoPQ.Bulk
import TaoPQ.ParameterTraits
import TaoPQ.PgCopy
import Mathlib.Data.List.Induction

/-!
# Rows written by a table writer

`table_writer::insert` builds the line of a row from the columns of its arguments and sends it.  The server reads
exactly one row in it, whose fields are the text forms of these columns (`inserted_row_loads`), since every `copy_to`
escapes all that the format of `COPY` gives a meaning to (`copyTo_eq`).
-/

namespace TaoPQ

open Byte Escaping

namespace TableWriter

/-- `table_writer::insert_indexed`, up to where the line is sent, for the sequences of `insert_traits`.  Nothing comes
out when there is no last character to be overwritten. -/
def insertIndexed (ts : List Param) : Option Bytes :=
  let buffer := (Gen.sequence (Param.columnsOf ts)).foldl
    (fun buffer p => Param.copyMember ts p.1 p.2 buffer ++ [tab]) []
  if buffer = [] then none else some (buffer.dropLast ++ [newline])

/-- `table_writer::insert` -/
def insert {DB : Type} (W : World) (b : Nat) (ts : List Param) : Prog DB Unit :=
  match insertIndexed ts with
  | some line => insertRaw W b line
  | none => Exec.undefined

end TableWriter

namespace Param

/-! ### The text forms of the columns -/

mutual

/-- The columns of an argument as text, or null. -/
def fields : Param → List (Option Bytes)
  | null => [none]
  | bool v => [some (boolText v)]
  | char v => [some [v]]
  | integer v => [some (toChars v)]
  | string v => [some v]
  | binary v => [some (backslash :: (ascii "x" ++ hexDigits v))]
  | array v => [some (arrayText (array v))]
  | nullopt extra => List.replicate (extra + 1) none
  | optional v => fields v
  | pair first second => [fields first, fields second].flatten
  | tuple first rest => (fields first :: fieldsOf rest).flatten

/-- The columns of each of several arguments. -/
def fieldsOf : List Param → List (List (Option Bytes))
  | [] => []
  | v :: vs => fields v :: fieldsOf vs

end

mutual

theorem length_fields : (v : Param) → (fields v).length = columns v
  | null | bool _ | char _ | integer _ | string _ | binary _ | array _ => by simp [fields, columns]
  | nullopt _ => by simp [fields, columns]
  | optional v => by
    rw [fields, columns]
    exact length_fields v
  | pair first second => by
    simp [fields, columns, length_fields first, length_fields second]
  | tuple first rest => by
    simp [fields, columns, length_fields first, length_fieldsOf rest]

theorem length_fieldsOf : (vs : List Param) → (fieldsOf vs).map List.length = columnsOf vs
  | [] => rfl
  | v :: vs => by
    rw [fieldsOf, columnsOf, List.map_cons, length_fields v, length_fieldsOf vs]

end

theorem fields_ne_nil : (v : Param) → fields v ≠ []
  | null | bool _ | char _ | integer _ | string _ | binary _ | array _ | nullopt _ => by simp [fields]
  | optional v => by
    rw [fields]
    exact fields_ne_nil v
  | pair first _ => by
    simp [fields, fields_ne_nil first]
  | tuple first _ => by
    simp [fields, fields_ne_nil first]

/-! ### What each column appends -/

/-- How a column is written. -/
def fieldText : Option Bytes → Bytes
  | none => copyNull
  | some s => escape backslash copySpecial s

/-- Digits need no escapes. -/
private theorem digit_not_special {n : Nat} {b : UInt8} (hb : b ∈ (Nat.toDigits 10 n).map Char.toUInt8) :
    b ∉ copySpecial := by
  obtain ⟨c, hc, rfl⟩ := List.mem_map.mp hb
  have hdigit := Nat.isDigit_of_mem_toDigits (by decide) (by decide) hc
  simp only [Char.isDigit, ge_iff_le, Bool.and_eq_true, decide_eq_true_eq, UInt32.le_iff_toNat_le] at hdigit
  have hnat : c.toUInt8.toNat = c.val.toNat := by
    have hle : c.val.toNat ≤ 57 := hdigit.2
    show c.val.toNat % 256 = c.val.toNat
    omega
  have hlow : 48 ≤ c.toUInt8.toNat := by
    rw [hnat]
    exact hdigit.1
  intro hmem
  simp only [copySpecial, List.mem_cons, List.not_mem_nil, or_false] at hmem
  have hhigh : c.toUInt8.toNat ≤ 57 := by
    rw [hnat]
    exact hdigit.2
  rcases hmem with h | h | h | h | h | h | h <;> rw [h] at hlow hhigh <;> revert hlow hhigh <;> decide

private theorem toChars_not_special (v : Int) : ∀ b ∈ toChars v, b ∉ copySpecial := by
  intro b hb
  cases v with
  | ofNat n => exact digit_not_special hb
  | negSucc n =>
    rcases List.mem_append.mp hb with hb | hb
    · have hsign : ∀ c ∈ ascii "-", c ∉ copySpecial := by decide
      exact hsign b hb
    · exact digit_not_special hb

private theorem hexDigit_not_special (n : UInt8) : hexDigit n ∉ copySpecial := by
  have hdigits : ∀ b ∈ ascii "0123456789abcdef", b ∉ copySpecial := by decide
  rw [hexDigit, List.getD_eq_getElem?_getD]
  cases hn : (ascii "0123456789abcdef")[n.toNat]? with
  | none => decide
  | some b => exact hdigits b (List.mem_of_getElem? hn)

theorem hexDigits_not_special (v : Bytes) : ∀ b ∈ hexDigits v, b ∉ copySpecial := by
  intro b hb
  obtain ⟨c, -, hb⟩ := List.mem_flatMap.mp hb
  rcases List.mem_cons.mp hb with rfl | hb
  · exact hexDigit_not_special _
  · rw [List.mem_singleton.mp hb]
    exact hexDigit_not_special _

/-- The texts that are appended as they are need no escapes, and `element` doubles the backslash of a `bytea`. -/
private theorem fieldText_bool (v : Bool) : fieldText (some (boolText v)) = boolText v := by
  cases v <;> decide

private theorem fieldText_integer (v : Int) : fieldText (some (toChars v)) = toChars v :=
  escape_eq_self _ _ (toChars_not_special v)

theorem fieldText_binary (v : Bytes) :
    fieldText (some (backslash :: (ascii "x" ++ hexDigits v))) =
      [backslash, backslash] ++ ascii "x" ++ hexDigits v := by
  have hprefix : escape backslash copySpecial (ascii "x") = ascii "x" := by decide
  rw [fieldText, escape_cons, if_pos (by decide), escape_append, hprefix,
    escape_eq_self _ _ (hexDigits_not_special v), List.append_assoc]

/-- Where a column of a pack is found. -/
private theorem exists_member {ls : List (List (Option Bytes))} {I : Nat} {x : Option Bytes}
    (h : ls.flatten[I]? = some x) :
    ∃ l, ls[Gen.outer (ls.map List.length) I]? = some l ∧ l[Gen.inner (ls.map List.length) I]? = some x := by
  have hlt : I < (ls.map List.length).sum := by
    rw [← List.length_flatten]
    exact (List.getElem?_eq_some_iff.mp h).1
  rw [Gen.getElem_flatten ls hlt] at h
  exact Option.bind_eq_some_iff.mp h

private theorem eq_of_singleton {x y : Option Bytes} {I : Nat} (h : [y][I]? = some x) : x = y :=
  List.mem_singleton.mp (List.mem_of_getElem? h)

mutual

/-- Each column is appended as the escaped form of its text. -/
theorem copyTo_eq : (v : Param) → (I : Nat) → (data : Bytes) → (x : Option Bytes) → (fields v)[I]? = some x →
    copyTo v I data = data ++ fieldText x
  | null, I, data, x, h => by
    rw [eq_of_singleton h, copyTo, fieldText]
  | bool v, I, data, x, h => by
    rw [eq_of_singleton h, copyTo, fieldText_bool]
  | char v, I, data, x, h => by
    rw [eq_of_singleton h, copyTo, fieldText]
    exact appendEscaped_eq copySpecial data [v]
  | integer v, I, data, x, h => by
    rw [eq_of_singleton h, copyTo, fieldText_integer]
  | string v, I, data, x, h => by
    rw [eq_of_singleton h, copyTo, fieldText]
    exact appendEscaped_eq copySpecial data v
  | binary v, I, data, x, h => by
    rw [eq_of_singleton h, copyTo, fieldText_binary, element]
    simp only [List.append_assoc]
  | array v, I, data, x, h => by
    rw [eq_of_singleton h, copyTo, fieldText]
    exact appendEscaped_eq copySpecial data (arrayText (array v))
  | nullopt extra, I, data, x, h => by
    have hx : x = none := List.eq_of_mem_replicate (List.mem_of_getElem? h)
    rw [hx, copyTo, fieldText]
  | optional v, I, data, x, h => by
    rw [copyTo]
    exact copyTo_eq v I data x h
  | pair first second, I, data, x, h => by
    obtain ⟨l, hl, hx⟩ := exists_member h
    rw [List.map_cons, List.map_cons, List.map_nil, length_fields, length_fields] at hl hx
    rw [copyTo]
    split
    · rename_i houter
      rw [houter] at hl
      cases hl
      exact copyTo_eq first _ data x hx
    · have hsecond : l = fields second := by
        rcases houter : Gen.outer [columns first, columns second] I with _ | _ | O
        · contradiction
        · rw [houter] at hl
          exact (Option.some.inj hl).symm
        · rw [houter] at hl
          cases hl
      rw [hsecond] at hx
      exact copyTo_eq second _ data x hx
  | tuple first rest, I, data, x, h => by
    obtain ⟨l, hl, hx⟩ := exists_member h
    rw [List.map_cons, length_fields, length_fieldsOf] at hl hx
    rw [copyTo]
    split
    · rename_i houter
      rw [houter] at hl
      cases hl
      exact copyTo_eq first _ data x hx
    · rename_i O houter
      rw [houter] at hl
      exact copyMember_eq rest O _ data l x hl hx

/-- The members of a pack, which are looked up one after the other. -/
theorem copyMember_eq : (vs : List Param) → (O I : Nat) → (data : Bytes) → (l : List (Option Bytes)) →
    (x : Option Bytes) → (fieldsOf vs)[O]? = some l → l[I]? = some x → copyMember vs O I data = data ++ fieldText x
  | [], O, I, data, l, x, hl, hx => by cases hl
  | v :: vs, 0, I, data, l, x, hl, hx => by
    cases hl
    exact copyTo_eq v I data x hx
  | v :: vs, O + 1, I, data, l, x, hl, hx => copyMember_eq vs O I data l x hl hx

end

end Param

namespace CopyInput

/-! ### What the server loads -/

/-- An escaped string is read as the string: the escapes are those of the raw characters, none of which has a meaning
of its own behind a backslash. -/
private theorem unescapeFrom_escape (s : Bytes) : unescapeFrom .plain (escape backslash copySpecial s) = s := by
  have hescaped : ∀ b ∈ copySpecial, step .escaped b = ([b], .plain) := by decide
  induction s with
  | nil => rfl
  | cons b s ih =>
    rw [escape_cons]
    by_cases hb : b ∈ copySpecial
    · rw [if_pos hb]
      show (step .escaped b).1 ++ unescapeFrom (step .escaped b).2 (escape backslash copySpecial s) = _
      rw [hescaped b hb]
      show b :: unescapeFrom .plain (escape backslash copySpecial s) = _
      rw [ih]
    · have hbackslash : b ≠ backslash := fun h => hb (by rw [h]; decide)
      have hplain : step .plain b = ([b], .plain) := if_neg hbackslash
      rw [if_neg hb]
      show (step .plain b).1 ++ unescapeFrom (step .plain b).2 (escape backslash copySpecial s) = _
      rw [hplain]
      show b :: unescapeFrom .plain (escape backslash copySpecial s) = _
      rw [ih]

/-- No string is written like a null. -/
private theorem escape_ne_nullMarker (s : Bytes) : escape backslash copySpecial s ≠ nullMarker := by
  cases s with
  | nil => decide
  | cons b s =>
    rw [escape_cons]
    by_cases hb : b ∈ copySpecial
    · rw [if_pos hb]
      intro h
      have hN : b = 78 := by injection h with _ h; injection h
      exact absurd (hN ▸ hb) (by decide)
    · rw [if_neg hb]
      intro h
      have hbackslash : b = backslash := by injection h
      exact hb (by rw [hbackslash]; decide)

theorem field_fieldText (x : Option Bytes) : field (Param.fieldText x) = x := by
  cases x with
  | none => rfl
  | some s => rw [Param.fieldText, field, if_neg (escape_ne_nullMarker s), unescapeFrom_escape]

/-- A field can stand between any others. -/
theorem fieldText_guarded (x : Option Bytes) : Guarded backslash [tab, newline] (Param.fieldText x) := by
  cases x with
  | none => exact .escaped .nil
  | some s => exact .escape (by decide) (by decide) s

/-- The line that is made of the fields of a row is read as this row. -/
theorem rows_line {fs : List (Option Bytes)} (hfs : fs ≠ []) :
    rows ([tab].intercalate (fs.map Param.fieldText) ++ [newline]) = [fs] := by
  have hguarded : ∀ t ∈ fs.map Param.fieldText, Guarded backslash [tab, newline] t := by
    intro t ht
    obtain ⟨x, -, rfl⟩ := List.mem_map.mp ht
    exact fieldText_guarded x
  have hline : Guarded backslash [newline] ([tab].intercalate (fs.map Param.fieldText)) :=
    .intercalate (by decide) (by decide) fun t ht => (hguarded t ht).mono (by simp)
  have hlines : lines ([tab].intercalate (fs.map Param.fieldText) ++ [newline]) =
      [[tab].intercalate (fs.map Param.fieldText)] := by
    unfold lines
    rw [split_append_cons (by decide) hline]
    rfl
  have hrow : row ([tab].intercalate (fs.map Param.fieldText)) = fs := by
    have hne : fs.map Param.fieldText ≠ [] := fun h => hfs (List.map_eq_nil_iff.mp h)
    have hfield : field ∘ Param.fieldText = id := funext field_fieldText
    rw [row, split_intercalate (by decide) hne fun t ht => (hguarded t ht).mono (by simp), List.map_map, hfield,
      List.map_id]
  rw [rows, hlines, List.map_singleton, hrow]

end CopyInput

namespace TableWriter

/-- A loop that appends something for each position of a list. -/
private theorem foldl_range {f : Bytes → Nat → Bytes} {g : Option Bytes → Bytes} (l : List (Option Bytes))
    (h : ∀ I x, l[I]? = some x → ∀ buffer, f buffer I = buffer ++ g x) (buffer : Bytes) :
    (List.range l.length).foldl f buffer = buffer ++ l.flatMap g := by
  induction l using List.reverseRecOn generalizing buffer with
  | nil => simp
  | append_singleton l x ih =>
    have hl : ∀ I y, l[I]? = some y → ∀ buffer, f buffer I = buffer ++ g y := by
      intro I y hy
      have hlt : I < l.length := (List.getElem?_eq_some_iff.mp hy).1
      exact h I y (by rw [List.getElem?_append_left hlt, hy])
    have hx := h l.length x (by simp)
    rw [List.length_append, List.length_singleton, List.range_succ, List.foldl_append, ih hl]
    show f _ l.length = _
    rw [hx, List.flatMap_append, List.append_assoc]
    simp

/-- Every member of the pack appends its columns, with a tab behind each. -/
private theorem buffer_eq (ts : List Param) :
    (Gen.sequence (Param.columnsOf ts)).foldl (fun buffer p => Param.copyMember ts p.1 p.2 buffer ++ [tab]) [] =
      (Param.fieldsOf ts).flatten.flatMap fun x => Param.fieldText x ++ [tab] := by
  have hlength : (Param.fieldsOf ts).flatten.length = (Param.columnsOf ts).sum := by
    rw [List.length_flatten, Param.length_fieldsOf]
  rw [Gen.sequence, List.foldl_map, ← hlength]
  refine foldl_range (Param.fieldsOf ts).flatten (fun I x hx buffer => ?_) []
  obtain ⟨l, hl, hlx⟩ := Param.exists_member hx
  rw [Param.length_fieldsOf] at hl hlx
  rw [Param.copyMember_eq ts _ _ buffer l x hl hlx, List.append_assoc]

/-- With the last tab replaced, this is the line of the row. -/
theorem insertIndexed_eq (t : Param) (ts : List Param) :
    insertIndexed (t :: ts) =
      some ([tab].intercalate ((Param.fieldsOf (t :: ts)).flatten.map Param.fieldText) ++ [newline]) := by
  obtain ⟨x, fs, hfs⟩ : ∃ x fs, (Param.fieldsOf (t :: ts)).flatten = x :: fs := by
    refine List.exists_cons_of_ne_nil fun h => Param.fields_ne_nil t ?_
    exact List.flatten_eq_nil_iff.mp h _ List.mem_cons_self
  have htabs := flatMap_terminated tab (Param.fieldText x) (fs.map Param.fieldText)
  rw [← List.map_cons, List.flatMap_map] at htabs
  rw [insertIndexed, buffer_eq, hfs, htabs, if_neg (by simp), List.dropLast_concat]

/-- The line that is inserted for some arguments is loaded as one row, whose fields are the text forms of their
columns. -/
theorem inserted_row_loads (t : Param) (ts : List Param) :
    (insertIndexed (t :: ts)).map CopyInput.rows = some [(Param.fieldsOf (t :: ts)).flatten] := by
  have hne : (Param.fieldsOf (t :: ts)).flatten ≠ [] := fun h =>
    Param.fields_ne_nil t (List.flatten_eq_nil_iff.mp h _ List.mem_cons_self)
  rw [insertIndexed_eq, Option.map_some, CopyInput.rows_line hne]

/-- What `insert` sends is this line. -/
theorem insert_sends_row {DB : Type} (W : World) (b : Nat) (t : Param) (ts : List Param) :
    ∃ line, (insert W b (t :: ts) : Prog DB Unit) = insertRaw W b line ∧
      CopyInput.rows line = [(Param.fieldsOf (t :: ts)).flatten] := by
  have hne : (Param.fieldsOf (t :: ts)).flatten ≠ [] := fun h =>
    Param.fields_ne_nil t (List.flatten_eq_nil_iff.mp h _ List.mem_cons_self)
  refine ⟨_, ?_, CopyInput.rows_line hne⟩
  rw [insert, insertIndexed_eq]

end TableWriter

end TaoPQ
