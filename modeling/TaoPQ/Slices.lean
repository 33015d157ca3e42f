import TaoPQ.Rows

/-!
# Slices in numbers of 64 bits

`row` and `table_row` keep their offset and their number of columns as `std::size_t` (`row.cpp`, `table_row.cpp`), for
which sums wrap around.  `slice` checks such a sum: arguments whose sum wraps around to a small number pass, and the
slice then begins in front of the row.  `slice_exact_iff` says for which arguments the slice is as it should be.  Of
these, `Row` and `View` are what is left when numbers do not wrap around (`SizedRow.slice_toRow`).
-/

namespace TaoPQ

/-- `std::size_t` -/
abbrev SizeT := BitVec 64

/-- What `row` and `table_row` have in common: a reference to the row of a result, or to a reader, an offset and a number
of columns. -/
structure RowPart (β : Type) where
  base : β
  offset : SizeT
  columns : SizeT

namespace RowPart

variable {β γ : Type}

/-- `row::ensure_column` and `table_row::ensure_column` -/
def ensureColumn (p : RowPart β) (column : SizeT) : Conversion Unit :=
  if p.columns ≤ column then throw (.column column.toNat p.columns.toNat) else return ()

/-- `row::slice` and `table_row::slice` -/
def slice (p : RowPart β) (offset inColumns : SizeT) : Conversion (RowPart β) :=
  if inColumns = 0 then throw .emptySlice
  else if p.columns < offset + inColumns then throw (.slice offset.toNat inColumns.toNat p.columns.toNat)
  else return ⟨p.base, p.offset + offset, inColumns⟩

/-- An access to a column, once it was checked. -/
def access (f : β → Nat → Conversion γ) (p : RowPart β) (column : SizeT) : Conversion γ := do
  p.ensureColumn column
  f p.base (p.offset + column).toNat

end RowPart

/-- `m_result` and `m_row` -/
structure ResultRow where
  result : ResultSet
  row : Nat

namespace ResultRow

def isNull (x : ResultRow) (column : Nat) : Conversion Bool := x.result.isNull x.row column

def get (x : ResultRow) (column : Nat) : Conversion Bytes := x.result.get x.row column

end ResultRow

/-- An element of `raw_data`.  There is no check of the index. -/
def RowData.entry (m : RowData) (column : Nat) : Conversion (Option Nat) :=
  match m.data[column]? with
  | some p => return p
  | none => none

/-- `row` -/
abbrev SizedRow := RowPart ResultRow

/-- `table_row` -/
abbrev SizedTableRow := RowPart RowData

namespace SizedRow

/-- `row::is_null` -/
def isNull : SizedRow → SizeT → Conversion Bool := RowPart.access ResultRow.isNull

/-- `row::get` -/
def get : SizedRow → SizeT → Conversion Bytes := RowPart.access ResultRow.get

section

variable {α : Type}

/-- `row::get< T >` for a direct type. -/
def getDirect (null : Option (ResultValue α)) (fromText : Bytes → Conversion (ResultValue α)) (r : SizedRow)
    (column : SizeT) : Conversion (ResultValue α) :=
  match null with
  | some v => do
    let isNull ← r.isNull column
    if isNull then return v
    else do
      let text ← r.get column
      fromText text
  | none => do
    let text ← r.get column
    fromText text

/-- What `row` is for the traits. -/
def rowClass : RowClass SizedRow α where
  columns r := r.columns.toNat
  slice r offset n := r.slice (.ofNat 64 offset) (.ofNat 64 n)
  isNull r column := r.isNull (.ofNat 64 column)
  getDirect null fromText r column := r.getDirect null fromText (.ofNat 64 column)

end

end SizedRow

namespace SizedTableRow

/-- `table_row::get`, with the entry of `raw_data`. -/
def get : SizedTableRow → SizeT → Conversion (Option Nat) := RowPart.access RowData.entry

/-- `table_row::is_null` -/
def isNull (v : SizedTableRow) (column : SizeT) : Conversion Bool := do
  let p ← v.get column
  return p.isNone

/-- The string that a pointer of `raw_data` leads to. -/
def text (v : SizedTableRow) (p : Nat) : Conversion Bytes :=
  match v.base.buffer with
  | some m => return stringAt (m.drop p)
  | none => none

section

variable {α : Type}

/-- `table_row::get< T >` for a direct type. -/
def getDirect (null : Option (ResultValue α)) (fromText : Bytes → Conversion (ResultValue α)) (v : SizedTableRow)
    (column : SizeT) : Conversion (ResultValue α) := do
  let value ← v.get column
  match value with
  | none =>
    match null with
    | some x => return x
    | none => throw .null
  | some p => do
    let text ← v.text p
    fromText text

/-- What `table_row` is for the traits. -/
def rowClass : RowClass SizedTableRow α where
  columns v := v.columns.toNat
  slice v offset n := v.slice (.ofNat 64 offset) (.ofNat 64 n)
  isNull v column := v.isNull (.ofNat 64 column)
  getDirect null fromText v column := v.getDirect null fromText (.ofNat 64 column)

end

end SizedTableRow

/-! ### What a slice should be -/

namespace RowPart

variable {β γ : Type}

/-- The sum of the arguments of `slice` wraps around, to a number that passes the check. -/
def Wraps (columns offset n : SizeT) : Prop :=
  n ≠ 0 ∧ 2 ^ 64 ≤ offset.toNat + n.toNat ∧ offset.toNat + n.toNat - 2 ^ 64 ≤ columns.toNat

/-- The slice exists if its columns are columns of the row, and shows these. -/
structure SliceExact (p : RowPart β) (offset n : SizeT) : Prop where
  succeeds : (∃ s, p.slice offset n = pure s) ↔ n ≠ 0 ∧ offset.toNat + n.toNat ≤ p.columns.toNat
  throws : ¬ (n ≠ 0 ∧ offset.toNat + n.toNat ≤ p.columns.toNat) → ∃ e, p.slice offset n = throw e
  inside : ∀ s, p.slice offset n = pure s →
    p.offset.toNat ≤ s.offset.toNat ∧ s.offset.toNat + s.columns.toNat ≤ p.offset.toNat + p.columns.toNat
  cells : ∀ s, p.slice offset n = pure s → ∀ k < n, ∀ (γ : Type) (f : β → Nat → Conversion γ),
    s.access f k = p.access f (offset + k)

/-- A slice of the slice is a slice of the row. -/
def Composes (p : RowPart β) (a n b m : SizeT) : Prop :=
  ∀ s, p.slice a n = pure s →
    ((∃ t, s.slice b m = pure t) ↔ m ≠ 0 ∧ b.toNat + m.toNat ≤ n.toNat) ∧
      ∀ t, s.slice b m = pure t → p.slice (a + b) m = pure t

/-- Nothing but columns of the row is read through the slice that `get` of a composite type with `n` columns takes: an
access that does not throw is one to such a column. -/
def ReadsInside (f : β → Nat → Conversion γ) (p : RowPart β) (column n : SizeT) : Prop :=
  ∀ s, p.slice column n = pure s → ∀ k, (∀ e, s.access f k ≠ throw e) →
    p.offset.toNat ≤ (s.offset + k).toNat ∧ (s.offset + k).toNat < p.offset.toNat + p.columns.toNat

end RowPart

/-! ### What a slice is -/

namespace RowPart

variable {β γ : Type} {f : β → Nat → Conversion γ} {p s : RowPart β} {a n b m column k : SizeT}

theorem slice_eq (hn : n ≠ 0) (h : (a + n).toNat ≤ p.columns.toNat) :
    p.slice a n = pure ⟨p.base, p.offset + a, n⟩ := by
  rw [slice, if_neg hn, if_neg (by bv_omega)]

theorem slice_eq_pure (h : p.slice a n = pure s) :
    n ≠ 0 ∧ (a + n).toNat ≤ p.columns.toNat ∧ s = ⟨p.base, p.offset + a, n⟩ := by
  unfold slice at h
  split at h
  · cases h
  · split at h
    · cases h
    · cases h
      exact ⟨‹_›, by bv_omega, rfl⟩

theorem slice_throws (h : ∀ s, p.slice a n ≠ pure s) : ∃ e, p.slice a n = throw e := by
  by_cases hn : n = 0
  · exact ⟨_, if_pos hn⟩
  · by_cases hle : p.columns < a + n
    · exact ⟨_, (if_neg hn).trans (if_pos hle)⟩
    · exact absurd (slice_eq hn (by bv_omega)) (h _)

/-- The sum that is checked is the sum of the arguments, or smaller by `2 ^ 64`. -/
theorem slice_succeeds_iff : (∃ s, p.slice a n = pure s) ↔
    n ≠ 0 ∧ a.toNat + n.toNat ≤ p.columns.toNat ∨ Wraps p.columns a n := by
  have ha := a.isLt
  have hn := n.isLt
  have hadd := BitVec.toNat_add a n
  refine ⟨fun ⟨s, hs⟩ => ?_, fun h => ?_⟩
  · obtain ⟨hne, hle, -⟩ := slice_eq_pure hs
    by_cases hlt : a.toNat + n.toNat < 2 ^ 64
    · exact .inl ⟨hne, by omega⟩
    · exact .inr ⟨hne, by omega, by omega⟩
  · rcases h with ⟨hne, hle⟩ | ⟨hne, hge, hle⟩
    · exact ⟨_, slice_eq hne (by omega)⟩
    · exact ⟨_, slice_eq hne (by omega)⟩

theorem access_eq (hk : k < p.columns) : p.access f k = f p.base (p.offset + k).toNat := by
  rw [access, ensureColumn, if_neg (by bv_omega)]
  rfl

theorem access_throws (hk : ¬ k < p.columns) : p.access f k = throw (.column k.toNat p.columns.toNat) := by
  rw [access, ensureColumn, if_pos (by bv_omega)]
  rfl

/-- In numbers that do not wrap around. -/
theorem sliceExact_iff (h : p.offset.toNat + p.columns.toNat < 2 ^ 64) :
    SliceExact p a n ↔ ¬ Wraps p.columns a n := by
  refine ⟨fun hexact hwraps => ?_, fun hwraps => ?_⟩
  · have hsucceeds := hexact.succeeds.1 (slice_succeeds_iff.2 (.inr hwraps))
    obtain ⟨-, hge, -⟩ := hwraps
    omega
  · have hsucceeds : (∃ s, p.slice a n = pure s) ↔ n ≠ 0 ∧ a.toNat + n.toNat ≤ p.columns.toNat :=
      slice_succeeds_iff.trans (or_iff_left hwraps)
    refine ⟨hsucceeds, fun hnot => ?_, fun s hs => ?_, fun s hs k hk γ f => ?_⟩
    · exact slice_throws fun s hs => hnot (hsucceeds.1 ⟨s, hs⟩)
    · obtain ⟨-, hle⟩ := hsucceeds.1 ⟨s, hs⟩
      obtain ⟨-, -, rfl⟩ := slice_eq_pure hs
      have hadd := BitVec.toNat_add p.offset a
      dsimp only
      omega
    · obtain ⟨-, hle⟩ := hsucceeds.1 ⟨s, hs⟩
      obtain ⟨-, -, rfl⟩ := slice_eq_pure hs
      rw [access_eq hk, access_eq (by bv_omega), BitVec.add_assoc]

theorem composes_iff (hwraps : ¬ Wraps p.columns a n) :
    Composes p a n b m ↔ (n ≠ 0 → a.toNat + n.toNat ≤ p.columns.toNat → ¬ Wraps n b m) := by
  refine ⟨fun hcomposes hn hle hwraps' => ?_, fun hinner s hs => ?_⟩
  · obtain ⟨s, hs⟩ := (slice_succeeds_iff (p := p)).2 (.inl ⟨hn, hle⟩)
    obtain ⟨-, -, rfl⟩ := slice_eq_pure hs
    have hsucceeds := (hcomposes _ hs).1.1 (slice_succeeds_iff.2 (.inr hwraps'))
    obtain ⟨-, hge, -⟩ := hwraps'
    have hlt := n.isLt
    omega
  · obtain ⟨hn, hle⟩ := (slice_succeeds_iff.1 ⟨s, hs⟩).resolve_right hwraps
    obtain ⟨-, -, rfl⟩ := slice_eq_pure hs
    have hiff := (slice_succeeds_iff (p := ⟨p.base, p.offset + a, n⟩) (a := b) (n := m)).trans
      (or_iff_left (hinner hn hle))
    refine ⟨hiff, fun t ht => ?_⟩
    obtain ⟨hm, hle'⟩ := hiff.1 ⟨t, ht⟩
    obtain ⟨-, -, rfl⟩ := slice_eq_pure ht
    dsimp only at hle' ⊢
    rw [slice_eq hm (by bv_omega), BitVec.add_assoc]

theorem readsInside_of_not_wraps (h : p.offset.toNat + p.columns.toNat < 2 ^ 64) (hwraps : ¬ Wraps p.columns column n) :
    ReadsInside f p column n := by
  intro s hs k hk
  obtain ⟨-, hle⟩ := (slice_succeeds_iff.1 ⟨s, hs⟩).resolve_right hwraps
  obtain ⟨-, -, rfl⟩ := slice_eq_pure hs
  have hlt : k < n := by
    by_contra hlt
    exact hk _ (access_throws hlt)
  have hadd := BitVec.toNat_add p.offset column
  have hadd' := BitVec.toNat_add (p.offset + column) k
  have hk := k.isLt
  dsimp only
  bv_omega

/-- A slice whose sum wraps around contains the column in front of the row. -/
theorem in_front (hwraps : Wraps p.columns column n) :
    ∃ s k, p.slice column n = pure s ∧ s.base = p.base ∧ k < s.columns ∧ s.offset + k = p.offset - 1 := by
  obtain ⟨s, hs⟩ := slice_succeeds_iff.2 (.inr hwraps)
  obtain ⟨-, -, rfl⟩ := slice_eq_pure hs
  obtain ⟨-, hge, -⟩ := hwraps
  refine ⟨_, -1 - column, hs, rfl, ?_, ?_⟩
  · dsimp only
    bv_omega
  · dsimp only
    bv_omega

end RowPart

/-! ### Rows of results, and of table readers -/

open RowPart

/-- A row of a result, inside of its columns. -/
structure SizedRow.Inside (r : SizedRow) : Prop where
  row : r.base.row < r.base.result.rows.length
  size : r.base.result.columns < 2 ^ 64
  columns : r.offset.toNat + r.columns.toNat ≤ r.base.result.columns

/-- A row of a table reader, inside of `raw_data`. -/
structure SizedTableRow.Inside (v : SizedTableRow) : Prop where
  size : v.base.data.length < 2 ^ 64
  columns : v.offset.toNat + v.columns.toNat ≤ v.base.data.length

namespace ResultSet

theorem isNull_ne_throw {res : ResultSet} {row column : Nat} (hrow : row < res.rows.length) :
    (∀ e, res.isNull row column ≠ throw e) ↔ column < res.columns := by
  rw [isNull, checkRow, if_neg (by omega)]
  change (∀ e, (if res.columns ≤ column then throw _ else pure _) ≠ throw e) ↔ _
  refine ⟨fun h => ?_, fun h e he => ?_⟩
  · by_contra hle
    exact h _ (if_pos (by omega))
  · rw [if_neg (by omega)] at he
    cases he

end ResultSet

section

variable {column n : SizeT}

/-- Through `row`, which checks the column of the result again, other columns are read if there are such in front of the
row, or behind it. -/
theorem SizedRow.readsInside_iff {r : SizedRow} (h : r.Inside) :
    ReadsInside ResultRow.isNull r column n ↔
      ¬ (Wraps r.columns column n ∧ (r.offset ≠ 0 ∨
        r.columns.toNat < r.base.result.columns ∧ column.toNat < r.base.result.columns)) := by
  have hsize := h.size
  have hcolumns := h.columns
  have hc := column.isLt
  refine ⟨fun hreads ⟨hwraps, houtside⟩ => ?_, fun houtside => ?_⟩
  · by_cases hoffset : r.offset = 0
    · -- from the first column behind the row that the slice contains
      obtain ⟨hlt, hlt'⟩ := houtside.resolve_left (not_not_intro hoffset)
      obtain ⟨s, hs⟩ := slice_succeeds_iff.2 (.inr hwraps)
      obtain ⟨-, -, rfl⟩ := slice_eq_pure hs
      obtain ⟨-, hge, hle⟩ := hwraps
      have hn := n.isLt
      have hk : (BitVec.ofNat 64 (max column.toNat r.columns.toNat - column.toNat)).toNat =
          max column.toNat r.columns.toNat - column.toNat := by
        rw [BitVec.toNat_ofNat, Nat.mod_eq_of_lt (by omega)]
      generalize BitVec.ofNat 64 (max column.toNat r.columns.toNat - column.toNat) = k at hk
      have hindex : (r.offset + column + k).toNat = max column.toNat r.columns.toNat := by
        have hstart : r.offset + column = column := by bv_omega
        rw [hstart, BitVec.toNat_add, hk, Nat.mod_eq_of_lt (by omega)]
        omega
      obtain ⟨-, hout⟩ := hreads _ hs k fun e he => by
        rw [access_eq (by dsimp only; bv_omega)] at he
        refine (ResultSet.isNull_ne_throw h.row).2 ?_ e he
        dsimp only
        omega
      dsimp only at hout
      rw [hindex, hoffset] at hout
      simp at hout
    · obtain ⟨s, k, hs, hbase, hk, hfront⟩ := in_front hwraps
      have hlt : (r.offset - 1).toNat < r.offset.toNat := by bv_omega
      obtain ⟨hin, -⟩ := hreads s hs k fun e he => by
        rw [access_eq hk, hbase, hfront] at he
        exact (ResultSet.isNull_ne_throw h.row).2 (by omega) e he
      rw [hfront] at hin
      omega
  · by_cases hwraps : Wraps r.columns column n
    · obtain ⟨hoffset, hout⟩ := not_or.1 fun h' => houtside ⟨hwraps, h'⟩
      have hoffset : r.offset = 0 := not_not.1 hoffset
      intro s hs k hk
      obtain ⟨-, -, rfl⟩ := slice_eq_pure hs
      have hlt : k < n := by
        by_contra hlt
        exact hk _ (access_throws hlt)
      rw [access_eq hlt] at hk
      have hread := (ResultSet.isNull_ne_throw h.row).1 hk
      obtain ⟨-, hge, hle⟩ := hwraps
      have hstart : r.offset + column = column := by bv_omega
      dsimp only at hread ⊢
      rw [hstart] at hread ⊢
      have hadd := BitVec.toNat_add column k
      bv_omega
    · exact readsInside_of_not_wraps (by omega) hwraps

/-- Through `table_row` the column in front of the row is read, or what lies in front of `raw_data`. -/
theorem SizedTableRow.readsInside_iff {v : SizedTableRow} (h : v.Inside) :
    ReadsInside RowData.entry v column n ↔ ¬ Wraps v.columns column n := by
  have hsize := h.size
  have hcolumns := h.columns
  refine ⟨fun hreads hwraps => ?_, readsInside_of_not_wraps (by omega)⟩
  obtain ⟨s, k, hs, hbase, hk, hfront⟩ := in_front hwraps
  obtain ⟨hin, hout⟩ := hreads s hs k fun e he => by
    rw [access_eq hk, RowData.entry] at he
    split at he <;> cases he
  rw [hfront] at hin hout
  bv_omega

end

/-! ### Numbers that do not wrap around -/

private theorem toNat_ofNat {k : Nat} (hk : k < 2 ^ 64) : (BitVec.ofNat 64 k).toNat = k := by
  rw [BitVec.toNat_ofNat, Nat.mod_eq_of_lt hk]

namespace SizedRow

/-- The row, in numbers that do not wrap around. -/
def toRow (r : SizedRow) : Row := ⟨r.base.result, r.base.row, r.offset.toNat, r.columns.toNat⟩

variable {r : SizedRow} {α : Type}

theorem Inside.valid (h : r.Inside) (hpos : 0 < r.columns.toNat) : r.toRow.Valid := by
  have hslice : (Row.ofResult r.base.result r.base.row).slice r.offset.toNat r.columns.toNat = pure r.toRow := by
    rw [Row.slice_eq hpos h.columns]
    simp [toRow, Row.ofResult]
  exact (Row.Valid.ofResult h.row).slice hslice

/-- An access below the number of columns. -/
private theorem access_toRow {γ : Type} (h : r.Inside) (f : ResultRow → Nat → Conversion γ) {k : Nat}
    (hk : k < r.columns.toNat) : access f r (.ofNat 64 k) = f r.base (r.offset.toNat + k) := by
  have hsize := h.size
  have hcolumns := h.columns
  have hofNat := toNat_ofNat (k := k) (by omega)
  have hadd := BitVec.toNat_add r.offset (.ofNat 64 k)
  rw [access_eq (by bv_omega), hadd, hofNat, Nat.mod_eq_of_lt (by omega)]

private theorem toRow_access {γ : Type} {k : Nat} (hk : k < r.columns.toNat) (x : Conversion γ) :
    (do r.toRow.ensureColumn k; x) = x := by
  rw [Row.ensureColumn, if_neg (show ¬ r.toRow.columns ≤ k from Nat.not_le_of_lt hk)]
  rfl

theorem isNull_toRow (h : r.Inside) {k : Nat} (hk : k < r.columns.toNat) : r.isNull (.ofNat 64 k) = r.toRow.isNull k :=
  (access_toRow h ResultRow.isNull hk).trans (toRow_access hk _).symm

theorem get_toRow (h : r.Inside) {k : Nat} (hk : k < r.columns.toNat) : r.get (.ofNat 64 k) = r.toRow.get k :=
  (access_toRow h ResultRow.get hk).trans (toRow_access hk _).symm

/-- A slice of columns of the row. -/
theorem slice_toRow (h : r.Inside) {offset n : Nat} (hn : 0 < n) (hle : offset + n ≤ r.columns.toNat) :
    ∃ s : SizedRow, r.slice (.ofNat 64 offset) (.ofNat 64 n) = pure s ∧ s.Inside ∧ s.columns.toNat = n ∧
      r.toRow.slice offset n = pure s.toRow := by
  have hsize := h.size
  have hcolumns := h.columns
  have ho := toNat_ofNat (k := offset) (by omega)
  have hn' := toNat_ofNat (k := n) (by omega)
  have hsum := BitVec.toNat_add (.ofNat 64 offset) (.ofNat 64 n)
  have hoffset : (r.offset + .ofNat 64 offset).toNat = r.offset.toNat + offset := by
    rw [BitVec.toNat_add, ho, Nat.mod_eq_of_lt (by omega)]
  have hslice : toRow ⟨r.base, r.offset + .ofNat 64 offset, .ofNat 64 n⟩ =
      ⟨r.base.result, r.base.row, r.offset.toNat + offset, n⟩ := by
    rw [toRow, hoffset, hn']
  refine ⟨_, slice_eq ?_ (by omega), ⟨h.row, h.size, ?_⟩, hn', ?_⟩
  · intro hzero
    rw [hzero] at hn'
    exact absurd hn' (Nat.ne_of_lt hn)
  · dsimp only
    omega
  · rw [Row.slice_eq hn hle, hslice]
    rfl

/-- `row` is lawful: what `get` and `as` read from a row of a result is what its cells say. -/
theorem lawful (α : Type) : (rowClass : RowClass SizedRow α).Lawful fun r cells =>
    r.Inside ∧ 0 < r.columns.toNat ∧ cells = r.toRow.cells where
  columns := fun ⟨h, hpos, hcells⟩ => (Row.lawful α).columns ⟨h.valid hpos, hcells⟩
  slice := by
    rintro r cells offset n ⟨h, hpos, hcells⟩ hn hle
    have hlength : r.columns.toNat = cells.length := (Row.lawful α).columns ⟨h.valid hpos, hcells⟩
    obtain ⟨s, hs, hinside, hcolumns, hslice⟩ := slice_toRow h hn (hlength ▸ hle)
    obtain ⟨s', hs', -, hshows⟩ := (Row.lawful α).slice ⟨h.valid hpos, hcells⟩ hn hle
    obtain rfl : s.toRow = s' := Except.ok.inj (Option.some.inj (hslice.symm.trans hs'))
    exact ⟨s, hs, hinside, by omega, hshows⟩
  isNull := by
    rintro r cells column ⟨h, hpos, hcells⟩ hcolumn
    have hlength : r.columns.toNat = cells.length := (Row.lawful α).columns ⟨h.valid hpos, hcells⟩
    exact (isNull_toRow h (hlength ▸ hcolumn)).trans ((Row.lawful α).isNull ⟨h.valid hpos, hcells⟩ hcolumn)
  getDirect := by
    rintro r cells column null fromText ⟨h, hpos, hcells⟩ hcolumn
    have hlength : r.columns.toNat = cells.length := (Row.lawful α).columns ⟨h.valid hpos, hcells⟩
    have hrow : r.toRow.getDirect null fromText column = _ :=
      (Row.lawful α).getDirect ⟨h.valid hpos, hcells⟩ hcolumn
    rw [← hrow]
    change r.getDirect null fromText (.ofNat 64 column) = _
    unfold SizedRow.getDirect Row.getDirect
    cases null <;> simp only [isNull_toRow h (hlength ▸ hcolumn), get_toRow h (hlength ▸ hcolumn)]

end SizedRow

namespace SizedTableRow

/-- The row, in numbers that do not wrap around. -/
def toView (v : SizedTableRow) : View := ⟨⟨v.offset.toNat, v.columns.toNat⟩, v.base⟩

variable {v : SizedTableRow} {α : Type}

theorem get_toView (h : v.Inside) {k : Nat} (hk : k < v.columns.toNat) : v.get (.ofNat 64 k) = v.toView.get k := by
  have hsize := h.size
  have hcolumns := h.columns
  have hofNat := toNat_ofNat (k := k) (by omega)
  have hadd := BitVec.toNat_add v.offset (.ofNat 64 k)
  have hview : v.toView.get k = RowData.entry v.base (v.offset.toNat + k) := by
    rw [View.get, View.ensureColumn, if_neg (show ¬ v.toView.row.columns ≤ k from Nat.not_le_of_lt hk)]
    rfl
  rw [hview, SizedTableRow.get, access_eq (by bv_omega), hadd, hofNat, Nat.mod_eq_of_lt (by omega)]

theorem slice_toView (h : v.Inside) {offset n : Nat} (hn : 0 < n) (hle : offset + n ≤ v.columns.toNat) :
    ∃ w : SizedTableRow, v.slice (.ofNat 64 offset) (.ofNat 64 n) = pure w ∧ w.Inside ∧
      v.toView.slice offset n = pure w.toView := by
  have hsize := h.size
  have hcolumns := h.columns
  have ho := toNat_ofNat (k := offset) (by omega)
  have hn' := toNat_ofNat (k := n) (by omega)
  have hsum := BitVec.toNat_add (.ofNat 64 offset) (.ofNat 64 n)
  have hoffset : (v.offset + .ofNat 64 offset).toNat = v.offset.toNat + offset := by
    rw [BitVec.toNat_add, ho, Nat.mod_eq_of_lt (by omega)]
  have hslice : toView ⟨v.base, v.offset + .ofNat 64 offset, .ofNat 64 n⟩ =
      ⟨⟨v.offset.toNat + offset, n⟩, v.base⟩ := by
    rw [toView, hoffset, hn']
  refine ⟨_, slice_eq ?_ (by omega), ⟨h.size, ?_⟩, ?_⟩
  · intro hzero
    rw [hzero] at hn'
    exact absurd hn' (Nat.ne_of_lt hn)
  · dsimp only
    omega
  · rw [View.slice_eq hn hle, hslice]
    rfl

/-- `table_row` is lawful for the rows that a table reader has read. -/
theorem lawful (α : Type) (fs : List (Option Bytes)) : (rowClass : RowClass SizedTableRow α).Lawful fun v cells =>
    v.Inside ∧ View.Valid fs v.toView ∧ cells = v.toView.cells fs where
  columns := fun ⟨_, hvalid, hcells⟩ => (View.lawful α fs).columns ⟨hvalid, hcells⟩
  slice := by
    rintro v cells offset n ⟨h, hvalid, hcells⟩ hn hle
    have hlength : v.columns.toNat = cells.length := (View.lawful α fs).columns ⟨hvalid, hcells⟩
    obtain ⟨w, hw, hinside, hslice⟩ := slice_toView h hn (hlength ▸ hle)
    obtain ⟨w', hw', hshows⟩ := (View.lawful α fs).slice ⟨hvalid, hcells⟩ hn hle
    obtain rfl : w.toView = w' := Except.ok.inj (Option.some.inj (hslice.symm.trans hw'))
    exact ⟨w, hw, hinside, hshows⟩
  isNull := by
    rintro v cells column ⟨h, hvalid, hcells⟩ hcolumn
    have hlength : v.columns.toNat = cells.length := (View.lawful α fs).columns ⟨hvalid, hcells⟩
    have hview : v.toView.isNull column = _ := (View.lawful α fs).isNull ⟨hvalid, hcells⟩ hcolumn
    rw [← hview]
    change v.isNull (.ofNat 64 column) = _
    rw [SizedTableRow.isNull, View.isNull, get_toView h (hlength ▸ hcolumn)]
  getDirect := by
    rintro v cells column null fromText ⟨h, hvalid, hcells⟩ hcolumn
    have hlength : v.columns.toNat = cells.length := (View.lawful α fs).columns ⟨hvalid, hcells⟩
    have hview : v.toView.getDirect null fromText column = _ :=
      (View.lawful α fs).getDirect ⟨hvalid, hcells⟩ hcolumn
    rw [← hview]
    change v.getDirect null fromText (.ofNat 64 column) = _
    unfold SizedTableRow.getDirect View.getDirect
    rw [get_toView h (hlength ▸ hcolumn)]
    exact congrArg _ (funext fun value => by cases value <;> cases null <;> rfl)

end SizedTableRow

/-- A composite type reads its columns of the row, where `slice` throws if there are not enough of them. -/
private theorem get_composite {ρ α : Type} {R : RowClass ρ α} {Shows : ρ → List (Option Bytes) → Prop}
    (hR : R.Lawful Shows) {t : ResultType α} (hread : t.readable = true) (hcomposite : t.isDirect = false) {r : ρ}
    {cells : List (Option Bytes)} (hr : Shows r cells) {column : Nat}
    (hthrows : cells.length < column + t.size → ∃ e, R.slice r column t.size = throw e) :
    (column + t.size ≤ cells.length ∧
        Conversion.Settles (t.get R r column) (t.value ((cells.drop column).take t.size))) ∨
      cells.length < column + t.size ∧ ∃ e, t.get R r column = throw e := by
  by_cases hle : column + t.size ≤ cells.length
  · exact .inl ⟨hle, ResultType.get_settles hR hread hr column hle⟩
  · obtain ⟨e, he⟩ := hthrows (by omega)
    refine .inr ⟨by omega, e, ?_⟩
    rw [ResultType.get, ResultType.getBy, if_neg (by simp [hcomposite]), he]
    rfl

private theorem slice_throws_of_lt {β : Type} {p : RowPart β} {column : SizeT} {n : Nat} (hn : n < 2 ^ 64)
    (hwraps : ¬ Wraps p.columns column (.ofNat 64 n)) (hlt : p.columns.toNat < column.toNat + n) :
    ∃ e, p.slice (.ofNat 64 column.toNat) (.ofNat 64 n) = throw e := by
  rw [BitVec.ofNat_toNat, BitVec.setWidth_eq]
  refine slice_throws fun s hs => ?_
  obtain ⟨-, hle⟩ := (slice_succeeds_iff.1 ⟨s, hs⟩).resolve_right hwraps
  rw [toNat_ofNat hn] at hle
  omega

section

variable {α : Type} {t : ResultType α}

/-- `row::get< T >` for a composite type reads columns of the row, or throws if there are not enough of them. -/
theorem SizedRow.get_cases {r : SizedRow} (h : r.Inside) (hpos : 0 < r.columns.toNat) (hread : t.readable = true)
    (hcomposite : t.isDirect = false) (hsize : t.size < 2 ^ 64) {column : SizeT}
    (hwraps : ¬ Wraps r.columns column (.ofNat 64 t.size)) :
    (column.toNat + t.size ≤ r.toRow.cells.length ∧ Conversion.Settles (t.get SizedRow.rowClass r column.toNat)
        (t.value ((r.toRow.cells.drop column.toNat).take t.size))) ∨
      r.toRow.cells.length < column.toNat + t.size ∧ ∃ e, t.get SizedRow.rowClass r column.toNat = throw e := by
  refine get_composite (SizedRow.lawful α) hread hcomposite ⟨h, hpos, rfl⟩ fun hlt => slice_throws_of_lt hsize hwraps ?_
  rwa [(h.valid hpos).cells_length] at hlt

/-- `table_row::get< T >` for a composite type. -/
theorem SizedTableRow.get_cases {v : SizedTableRow} {fs : List (Option Bytes)} (h : v.Inside)
    (hvalid : View.Valid fs v.toView) (hread : t.readable = true) (hcomposite : t.isDirect = false)
    (hsize : t.size < 2 ^ 64) {column : SizeT} (hwraps : ¬ Wraps v.columns column (.ofNat 64 t.size)) :
    (column.toNat + t.size ≤ (v.toView.cells fs).length ∧
        Conversion.Settles (t.get SizedTableRow.rowClass v column.toNat)
          (t.value (((v.toView.cells fs).drop column.toNat).take t.size))) ∨
      (v.toView.cells fs).length < column.toNat + t.size ∧
        ∃ e, t.get SizedTableRow.rowClass v column.toNat = throw e := by
  refine get_composite (SizedTableRow.lawful α fs) hread hcomposite ⟨h, hvalid, rfl⟩ fun hlt =>
    slice_throws_of_lt hsize hwraps ?_
  rwa [hvalid.cells_length] at hlt

end

/-- `slice` is exact, and slices compose, and a composite type reads nothing but columns of the row, exactly if no sum
wraps around to a number that passes the check.  Where it does, `row` may still find that there is no such column in the
result. -/
theorem slice_exact_iff {α : Type} (a n b m column : SizeT) (t : ResultType α) :
    (∀ r : SizedRow, r.Inside →
      (SliceExact r a n ∧ Composes r a n b m ∧ ReadsInside ResultRow.isNull r column (.ofNat 64 t.size) ↔
        ¬ Wraps r.columns a n ∧ (n ≠ 0 → a.toNat + n.toNat ≤ r.columns.toNat → ¬ Wraps n b m) ∧
          ¬ (Wraps r.columns column (.ofNat 64 t.size) ∧ (r.offset ≠ 0 ∨
            r.columns.toNat < r.base.result.columns ∧ column.toNat < r.base.result.columns)))) ∧
    ∀ v : SizedTableRow, v.Inside →
      (SliceExact v a n ∧ Composes v a n b m ∧ ReadsInside RowData.entry v column (.ofNat 64 t.size) ↔
        ¬ Wraps v.columns a n ∧ (n ≠ 0 → a.toNat + n.toNat ≤ v.columns.toNat → ¬ Wraps n b m) ∧
          ¬ Wraps v.columns column (.ofNat 64 t.size)) := by
  refine ⟨fun r hr => ?_, fun v hv => ?_⟩
  · have hlt : r.offset.toNat + r.columns.toNat < 2 ^ 64 := Nat.lt_of_le_of_lt hr.columns hr.size
    rw [sliceExact_iff hlt, SizedRow.readsInside_iff hr]
    exact and_congr_right fun hwraps => and_congr_left fun _ => composes_iff hwraps
  · have hlt : v.offset.toNat + v.columns.toNat < 2 ^ 64 := Nat.lt_of_le_of_lt hv.columns hv.size
    rw [sliceExact_iff hlt, SizedTableRow.readsInside_iff hv]
    exact and_congr_right fun hwraps => and_congr_left fun _ => composes_iff hwraps

/-- The second of three columns, of the last two. -/
theorem slice_exact_sample :
    let r : SizedRow := ⟨⟨⟨[[some (ascii "1"), some (ascii "2"), some (ascii "3")]], 3, by decide⟩, 0⟩, 0, 3⟩
    SliceExact r 1 2 ∧ Composes r 1 2 0 1 ∧
      ReadsInside ResultRow.isNull r 1 (.ofNat 64 (ResultType.pair (.leaf intResult) (.leaf intResult)).size) := by
  intro r
  have h := slice_exact_iff 1 2 0 1 1 (ResultType.pair (.leaf intResult) (.leaf intResult))
  refine (h.1 r ⟨Nat.one_pos, by decide, by decide⟩).2 ⟨fun hwraps => ?_, fun _ _ hwraps => ?_, fun hwraps => ?_⟩
  · exact absurd hwraps.2.1 (by decide)
  · exact absurd hwraps.2.1 (by decide)
  · exact absurd hwraps.1.2.1 (by decide)

/-- In a row of one column, the second of two, a slice of two columns begins with the first. -/
theorem slice_in_front :
    let r : SizedRow := ⟨⟨⟨[[some (ascii "1"), some (ascii "2")]], 2, by decide⟩, 0⟩, 1, 1⟩
    r.Inside ∧ (∃ s : SizedRow, r.slice (-1) 2 = pure s ∧ s.columns = 2 ∧ s.get 0 = pure (ascii "1") ∧
      s.get 1 = pure (ascii "2")) ∧ ¬ SliceExact r (-1) 2 := by
  intro r
  have hslice : r.slice (-1) 2 = pure ⟨r.base, r.offset + -1, 2⟩ := slice_eq (by decide) (by decide)
  have hzero : r.offset + -1 = 0 := by decide
  rw [hzero] at hslice
  have hfirst : SizedRow.get ⟨r.base, 0, 2⟩ 0 = pure (ascii "1") := access_eq (by decide)
  have hsecond : SizedRow.get ⟨r.base, 0, 2⟩ 1 = pure (ascii "2") := access_eq (by decide)
  refine ⟨⟨Nat.one_pos, by decide, by decide⟩, ⟨_, hslice, rfl, hfirst, hsecond⟩, fun h => ?_⟩
  exact absurd (h.succeeds.1 ⟨_, hslice⟩).2 (by decide)

end TaoPQ
