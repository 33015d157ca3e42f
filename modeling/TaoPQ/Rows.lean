import TaoPQ.ResultTypes
import TaoPQ.TableRows

/-!
# Rows

`row` refers to a part of a row of a result (`row.hpp`, `row.cpp`), and `table_row` to a part of the row that a table
reader has read last (`table_row.hpp`, `table_row.cpp`).  They look for NULLs in different ways, and both are lawful
classes of rows: `as` reads the same value from the same cells, or throws (`as_reads`).
-/

namespace TaoPQ

/-- What `result` knows of a result set: its rows, all of which have the same columns. -/
structure ResultSet where
  rows : List (List (Option Bytes))
  columns : Nat
  cells : ∀ x ∈ rows, x.length = columns

namespace ResultSet

/-- `result::check_row` -/
def checkRow (res : ResultSet) (row : Nat) : Conversion Unit :=
  if res.rows.length ≤ row then throw (.row row res.rows.length) else return ()

/-- The cell that `PQgetisnull` and `PQgetvalue` look at. -/
def cell (res : ResultSet) (row column : Nat) : Option Bytes := (res.rows.getD row []).getD column none

/-- `result::is_null` -/
def isNull (res : ResultSet) (row column : Nat) : Conversion Bool := do
  res.checkRow row
  if res.columns ≤ column then throw (.column column res.columns)
  else return (res.cell row column).isNone

/-- `result::get` -/
def get (res : ResultSet) (row column : Nat) : Conversion Bytes := do
  let isNull ← res.isNull row column
  if isNull then throw .null
  else return (res.cell row column).getD []

end ResultSet

/-- `row` -/
structure Row where
  result : ResultSet
  row : Nat
  offset : Nat
  columns : Nat

namespace Row

/-- `result::operator[]` -/
def ofResult (res : ResultSet) (row : Nat) : Row := ⟨res, row, 0, res.columns⟩

/-- `row::ensure_column` -/
def ensureColumn (r : Row) (column : Nat) : Conversion Unit :=
  if r.columns ≤ column then throw (.column column r.columns) else return ()

/-- `row::slice` -/
def slice (r : Row) (offset columns : Nat) : Conversion Row :=
  if columns = 0 then throw .emptySlice
  else if r.columns < offset + columns then throw (.slice offset columns r.columns)
  else return ⟨r.result, r.row, r.offset + offset, columns⟩

/-- `row::is_null` -/
def isNull (r : Row) (column : Nat) : Conversion Bool := do
  r.ensureColumn column
  r.result.isNull r.row (r.offset + column)

/-- `row::get` -/
def get (r : Row) (column : Nat) : Conversion Bytes := do
  r.ensureColumn column
  r.result.get r.row (r.offset + column)

section

variable {α : Type}

/-- `row::get< T >` for a direct type. -/
def getDirect (null : Option (ResultValue α)) (fromText : Bytes → Conversion (ResultValue α)) (r : Row)
    (column : Nat) : Conversion (ResultValue α) :=
  match null with
  | some v => do
    let isNull ← r.isNull column
    if isNull then return v
    else do
      let text ← r.get column
      fromText text
  | none => do
    let text ← r.get column
    fromText text

/-- What `row` is for the traits. -/
def rowClass : RowClass Row α := ⟨columns, slice, isNull, getDirect⟩

end

/-- A row of a result, or a slice of one. -/
inductive Valid : Row → Prop where
  | ofResult {res : ResultSet} {row : Nat} : row < res.rows.length → Valid (ofResult res row)
  | slice {r s : Row} {offset columns : Nat} : Valid r → r.slice offset columns = pure s → Valid s

/-- The cells that a row refers to. -/
def cells (r : Row) : List (Option Bytes) := ((r.result.rows.getD r.row []).drop r.offset).take r.columns

end Row

namespace View

/-- `table_row::ensure_column` -/
def ensureColumn (v : View) (column : Nat) : Conversion Unit :=
  if v.row.columns ≤ column then throw (.column column v.row.columns) else return ()

/-- `table_row::slice` -/
def slice (v : View) (offset columns : Nat) : Conversion View :=
  if columns = 0 then throw .emptySlice
  else if v.row.columns < offset + columns then throw (.slice offset columns v.row.columns)
  else return ⟨⟨v.row.offset + offset, columns⟩, v.memory⟩

/-- `table_row::get`, with the entry of `raw_data`. -/
def get (v : View) (column : Nat) : Conversion (Option Nat) := do
  v.ensureColumn column
  match v.memory.data[v.row.offset + column]? with
  | some p => return p
  | none => none

/-- `table_row::is_null` -/
def isNull (v : View) (column : Nat) : Conversion Bool := do
  let p ← v.get column
  return p.isNone

/-- The string that a pointer of `raw_data` leads to. -/
def text (v : View) (p : Nat) : Conversion Bytes :=
  match v.memory.buffer with
  | some m => return stringAt (m.drop p)
  | none => none

section

variable {α : Type}

/-- `table_row::get< T >` for a direct type. -/
def getDirect (null : Option (ResultValue α)) (fromText : Bytes → Conversion (ResultValue α)) (v : View)
    (column : Nat) : Conversion (ResultValue α) := do
  let value ← v.get column
  match value with
  | none =>
    match null with
    | some x => return x
    | none => throw .null
  | some p => do
    let text ← v.text p
    fromText text

/-- What `table_row` is for the traits. -/
def rowClass : RowClass View α := ⟨fun v => v.row.columns, slice, isNull, getDirect⟩

end

/-- A row that a table reader has read, with these fields, or a slice of it. -/
inductive Valid (fs : List (Option Bytes)) : View → Prop where
  | read {columns : Nat} {v : View} : TableReader.Presents columns v fs → (∀ x ∈ fs, NulFree x) → Valid fs v
  | slice {v w : View} {offset columns : Nat} : Valid fs v → v.slice offset columns = pure w → Valid fs w

/-- The fields that a row refers to. -/
def cells (fs : List (Option Bytes)) (v : View) : List (Option Bytes) := (fs.drop v.row.offset).take v.row.columns

end View

/-! ### Both show their cells -/

namespace Row

variable {r s : Row} {offset n : Nat}

theorem slice_eq (hn : 0 < n) (h : offset + n ≤ r.columns) :
    r.slice offset n = pure ⟨r.result, r.row, r.offset + offset, n⟩ := by
  rw [slice, if_neg (by omega), if_neg (by omega)]

/-- A slice lies inside of the row. -/
theorem slice_inside (h : r.slice offset n = pure s) :
    offset + n ≤ r.columns ∧ s = ⟨r.result, r.row, r.offset + offset, n⟩ := by
  unfold slice at h
  split at h
  · cases h
  · split at h
    · cases h
    · cases h
      exact ⟨by omega, rfl⟩

theorem Valid.inside (h : r.Valid) : r.row < r.result.rows.length ∧ r.offset + r.columns ≤ r.result.columns := by
  induction h with
  | ofResult hrow => exact ⟨hrow, Nat.le_of_eq (Nat.zero_add _)⟩
  | slice _ hslice ih =>
    obtain ⟨hle, rfl⟩ := slice_inside hslice
    refine ⟨ih.1, ?_⟩
    have hinside := ih.2
    simp only
    omega

/-- A row refers to so many cells as it has columns. -/
theorem Valid.cells_length (h : r.Valid) : r.cells.length = r.columns := by
  obtain ⟨hrow, hinside⟩ := h.inside
  have hlength : (r.result.rows.getD r.row []).length = r.result.columns := by
    rw [List.getD_eq_getElem _ [] hrow]
    exact r.result.cells _ (List.getElem_mem hrow)
  rw [cells, List.length_take, List.length_drop, hlength]
  omega

theorem cell_eq {column : Nat} (hcolumn : column < r.columns) :
    r.result.cell r.row (r.offset + column) = r.cells.getD column none := by
  rw [ResultSet.cell, cells]
  generalize r.result.rows.getD r.row [] = x
  rw [List.getD_eq_getElem?_getD, List.getD_eq_getElem?_getD, List.getElem?_take_of_lt hcolumn, List.getElem?_drop]

theorem Valid.isNull (h : r.Valid) {column : Nat} (hcolumn : column < r.columns) :
    r.isNull column = pure (r.cells.getD column none).isNone := by
  obtain ⟨hrow, hinside⟩ := h.inside
  rw [← cell_eq hcolumn, Row.isNull, ensureColumn, if_neg (by omega)]
  simp only [ResultSet.isNull, ResultSet.checkRow]
  rw [if_neg (by omega), if_neg (by omega)]
  rfl

theorem Valid.get (h : r.Valid) {column : Nat} (hcolumn : column < r.columns) :
    r.get column = (r.cells.getD column none).elim (throw .null) pure := by
  have hnull := h.isNull hcolumn
  rw [Row.isNull, ensureColumn, if_neg (by omega)] at hnull
  have hresult : r.result.isNull r.row (r.offset + column) = pure (r.cells.getD column none).isNone := hnull
  rw [Row.get, ensureColumn, if_neg (by omega)]
  change r.result.get r.row (r.offset + column) = _
  rw [ResultSet.get, hresult, cell_eq hcolumn]
  cases r.cells.getD column none with
  | none => rfl
  | some text => rfl

theorem lawful (α : Type) : (rowClass : RowClass Row α).Lawful fun r cells => r.Valid ∧ cells = r.cells where
  columns := fun ⟨h, hcells⟩ => hcells ▸ h.cells_length.symm
  slice := by
    rintro r _ offset n ⟨h, rfl⟩ hn hle
    rw [h.cells_length] at hle
    have hslice := slice_eq hn hle
    refine ⟨_, hslice, h.slice hslice, ?_⟩
    rw [cells, cells, List.drop_take, List.take_take, List.drop_drop, Nat.min_eq_left (by omega)]
  isNull := by
    rintro r _ column ⟨h, rfl⟩ hcolumn
    exact h.isNull (h.cells_length ▸ hcolumn)
  getDirect := by
    rintro r _ column null fromText ⟨h, rfl⟩ hcolumn
    rw [h.cells_length] at hcolumn
    have hnull := h.isNull hcolumn
    have hget := h.get hcolumn
    simp only [rowClass, getDirect, hnull, hget]
    cases r.cells.getD column none with
    | none => cases null <;> rfl
    | some text => cases null <;> rfl

end Row

namespace View

variable {v w : View} {fs : List (Option Bytes)} {offset n : Nat}

theorem slice_eq (hn : 0 < n) (h : offset + n ≤ v.row.columns) :
    v.slice offset n = pure ⟨⟨v.row.offset + offset, n⟩, v.memory⟩ := by
  rw [slice, if_neg (by omega), if_neg (by omega)]

theorem slice_inside (h : v.slice offset n = pure w) :
    offset + n ≤ v.row.columns ∧ w = ⟨⟨v.row.offset + offset, n⟩, v.memory⟩ := by
  unfold slice at h
  split at h
  · cases h
  · split at h
    · cases h
    · cases h
      exact ⟨by omega, rfl⟩

/-- A row lies inside of what was read, and the entries of `raw_data` point to the fields. -/
theorem Valid.inside (h : Valid fs v) : v.row.offset + v.row.columns ≤ fs.length ∧ (∀ x ∈ fs, NulFree x) ∧
    ∃ m, v.memory.buffer = some m ∧ List.Forall₂ (TableReader.PointsTo m) v.memory.data fs := by
  induction h with
  | read hpresents hfs =>
    obtain ⟨m, hm, hpoints⟩ := hpresents.fields
    refine ⟨?_, hfs, m, hm, hpoints⟩
    rw [hpresents.row, ← hpoints.length_eq, hpresents.entries]
    simp
  | slice _ hslice ih =>
    obtain ⟨hle, rfl⟩ := slice_inside hslice
    refine ⟨?_, ih.2⟩
    have hinside := ih.1
    simp only
    omega

theorem Valid.cells_length (h : Valid fs v) : (v.cells fs).length = v.row.columns := by
  have hinside := h.inside.1
  rw [cells, List.length_take, List.length_drop]
  omega

/-- An entry is null for a NULL, and leads to the text of the field otherwise. -/
theorem Valid.get (h : Valid fs v) {column : Nat} (hcolumn : column < v.row.columns) :
    ∃ p, v.get column = pure p ∧
      match (v.cells fs).getD column none with
      | some text => ∃ q, p = some q ∧ v.text q = pure text
      | none => p = none := by
  obtain ⟨hinside, hfs, m, hm, hpoints⟩ := h.inside
  have hlt : v.row.offset + column < v.memory.data.length := by
    rw [hpoints.length_eq]
    omega
  have hcell : (v.cells fs).getD column none = fs[v.row.offset + column] := by
    rw [cells, List.getD_eq_getElem?_getD, List.getElem?_take_of_lt hcolumn, List.getElem?_drop,
      List.getElem?_eq_getElem (by omega), Option.getD_some]
  have hpoint := hpoints.get hlt (by omega)
  refine ⟨v.memory.data[v.row.offset + column], ?_, ?_⟩
  · rw [View.get, ensureColumn, if_neg (by omega), List.getElem?_eq_getElem hlt]
    rfl
  · have hfree := hfs _ (List.getElem_mem (l := fs) (n := v.row.offset + column) (by omega))
    rw [hcell]
    change TableReader.PointsTo m v.memory.data[v.row.offset + column] fs[v.row.offset + column] at hpoint
    generalize v.memory.data[v.row.offset + column] = p at hpoint ⊢
    generalize fs[v.row.offset + column] = x at hpoint hfree ⊢
    match p, x, hpoint with
    | none, none, _ => rfl
    | some q, some text, ⟨rest, hrest⟩ =>
      refine ⟨q, rfl, ?_⟩
      simp only [View.text, hm, hrest]
      rw [stringAt_append (hfree text rfl)]

theorem lawful (α : Type) (fs : List (Option Bytes)) :
    (rowClass : RowClass View α).Lawful fun v cells => Valid fs v ∧ cells = v.cells fs where
  columns := fun ⟨h, hcells⟩ => hcells ▸ h.cells_length.symm
  slice := by
    rintro v _ offset n ⟨h, rfl⟩ hn hle
    rw [h.cells_length] at hle
    have hslice := slice_eq hn hle
    refine ⟨_, hslice, h.slice hslice, ?_⟩
    rw [cells, cells, List.drop_take, List.take_take, List.drop_drop, Nat.min_eq_left (by omega)]
  isNull := by
    rintro v _ column ⟨h, rfl⟩ hcolumn
    obtain ⟨p, hp, hcell⟩ := h.get (h.cells_length ▸ hcolumn)
    simp only [rowClass, isNull, hp]
    cases hx : (v.cells fs).getD column none with
    | none =>
      rw [hx] at hcell
      obtain rfl := hcell
      rfl
    | some text =>
      rw [hx] at hcell
      obtain ⟨q, rfl, -⟩ := hcell
      rfl
  getDirect := by
    rintro v _ column null fromText ⟨h, rfl⟩ hcolumn
    obtain ⟨p, hp, hcell⟩ := h.get (h.cells_length ▸ hcolumn)
    simp only [rowClass, getDirect, hp]
    cases hx : (v.cells fs).getD column none with
    | none =>
      rw [hx] at hcell
      obtain rfl := hcell
      cases null <;> rfl
    | some text =>
      rw [hx] at hcell
      obtain ⟨q, rfl, htext⟩ := hcell
      simp only [pure_bind, htext]

end View

/-- `row::as` -/
def Row.as {α : Type} (r : Row) (t : ResultType α) : Conversion (ResultValue α) := t.as rowClass r

/-- `table_row::as` -/
def View.as {α : Type} (v : View) (t : ResultType α) : Conversion (ResultValue α) := t.as rowClass v

section

variable {α : Type} {t : ResultType α} {r : Row}

theorem Row.Valid.as_settles (hr : r.Valid) (hread : t.readable = true) (h : t.size = r.columns) :
    Conversion.Settles (r.as t) (t.value r.cells) :=
  ResultType.as_settles (Row.lawful α) hread ⟨hr, rfl⟩ (h.trans hr.cells_length.symm)

/-- A row of the right size is read from left to right, or a leaf that is converted fails. -/
theorem Row.Valid.as_cases (hr : r.Valid) (hread : t.readable = true) (h : t.size = r.columns) :
    (∃ v, r.as t = pure v ∧ t.ReadFrom r.cells v) ∨
      ∃ e, r.as t = throw e ∧ e.isOfLeaf = true ∧ t.Fails r.cells := by
  have hsettles := hr.as_settles hread h
  have hlength : r.cells.length = t.size := hr.cells_length.trans h.symm
  cases hv : t.value r.cells with
  | some v =>
    rw [hv] at hsettles
    exact .inl ⟨v, hsettles.eq_pure, ResultType.readFrom hlength hv⟩
  | none =>
    rw [hv] at hsettles
    obtain ⟨e, he, hleaf⟩ := hsettles.eq_throw
    exact .inr ⟨e, he, hleaf, (ResultType.value_eq_none_iff hlength).1 hv⟩

/-- A table row with the same cells has the same value, or both have none. -/
theorem Row.Valid.as_agree (hr : r.Valid) (hread : t.readable = true) {fs : List (Option Bytes)} {v : View}
    (hv : View.Valid fs v) (hcells : v.cells fs = r.cells) :
    (∃ x, r.as t = pure x ∧ v.as t = pure x) ∨ ∃ e e', r.as t = throw e ∧ v.as t = throw e' := by
  by_cases h : t.size = r.cells.length
  · have hrow := ResultType.as_settles (Row.lawful α) hread ⟨hr, rfl⟩ h
    have htable := ResultType.as_settles (View.lawful α fs) hread ⟨hv, rfl⟩ (hcells ▸ h)
    rw [hcells] at htable
    change Conversion.Settles (r.as t) _ at hrow
    change Conversion.Settles (v.as t) _ at htable
    cases hx : t.value r.cells with
    | some x =>
      rw [hx] at hrow htable
      exact .inl ⟨x, hrow.eq_pure, htable.eq_pure⟩
    | none =>
      rw [hx] at hrow htable
      obtain ⟨e, he, -⟩ := hrow.eq_throw
      obtain ⟨e', he', -⟩ := htable.eq_throw
      exact .inr ⟨e, e', he, he'⟩
  · have hne : t.size ≠ (v.cells fs).length := hcells ▸ h
    exact .inr ⟨_, _, ResultType.as_of_ne (Row.lawful α) ⟨hr, rfl⟩ h,
      ResultType.as_of_ne (View.lawful α fs) ⟨hv, rfl⟩ hne⟩

/-- What `as` makes of a row, of a slice of one, and of a row of a table reader with the same cells. -/
theorem as_reads (hread : t.readable = true) (hr : r.Valid) :
    (r.as t = throw (.columns t.size r.columns) ↔ t.size ≠ r.columns) ∧
    (t.size = r.columns → (∃ v, r.as t = pure v ∧ t.ReadFrom r.cells v) ∨
      ∃ e, r.as t = throw e ∧ e.isOfLeaf = true ∧ t.Fails r.cells) ∧
    (t.size = r.columns → t.Fails r.cells → ∃ e, r.as t = throw e) ∧
    ∀ fs v, View.Valid fs v → v.cells fs = r.cells →
      (∃ x, r.as t = pure x ∧ v.as t = pure x) ∨ ∃ e e', r.as t = throw e ∧ v.as t = throw e' := by
  refine ⟨⟨fun hthrow h => ?_, fun h => ?_⟩, hr.as_cases hread, fun h hfails => ?_, fun fs v hv hcells => ?_⟩
  · obtain ⟨v, hv, -⟩ | ⟨e, he, hleaf, -⟩ := hr.as_cases hread h
    · cases hv.symm.trans hthrow
    · obtain rfl : e = .columns t.size r.columns := Except.error.inj (Option.some.inj (he.symm.trans hthrow))
      cases hleaf
  · have hne : t.size ≠ r.cells.length := hr.cells_length.symm ▸ h
    exact hr.cells_length ▸ ResultType.as_of_ne (Row.lawful α) ⟨hr, rfl⟩ hne
  · have hnone := (ResultType.value_eq_none_iff (hr.cells_length.trans h.symm)).2 hfails
    have hsettles := hr.as_settles hread h
    rw [hnone] at hsettles
    obtain ⟨e, he, -⟩ := hsettles.eq_throw
    exact ⟨e, he⟩
  · exact hr.as_agree hread hv hcells

end

/-- A number and an optional pair, of which only one column is NULL. -/
theorem as_reads_sample :
    let t : ResultType Int := .pair (.leaf intResult) (.optional (.pair (.leaf intResult) (.optional (.leaf intResult))))
    let r := Row.ofResult ⟨[[some (ascii "-7"), some (ascii "42"), none]], 3, by decide⟩ 0
    ∃ v, r.as t = pure v ∧ t.ReadFrom r.cells v := by
  intro t r
  obtain ⟨-, hreads, -⟩ := as_reads (t := t) (r := r) rfl (.ofResult Nat.one_pos)
  obtain h | ⟨e, he, -⟩ := hreads rfl
  · exact h
  · have hok : r.as t = pure (.pair (.leaf (-7)) (.engaged (.pair (.leaf 42) .nullopt))) := rfl
    cases hok.symm.trans he

/-- A number that is too large for its type is out of range in a row of the right size, and there is no conversion to
an optional aggregate of one column. -/
theorem as_out_of_range :
    (∃ r : Row, r.Valid ∧ (ResultType.leaf intResult).size = r.columns ∧
      ∃ e, r.as (.leaf intResult) = throw e ∧ e.isOutOfRange = true) ∧
    ∃ r : Row, r.Valid ∧ (ResultType.optional (.aggregate (.leaf intResult) [])).size = r.columns ∧
      r.as (.optional (.aggregate (.leaf intResult) [])) = none := by
  refine ⟨⟨.ofResult ⟨[[some (ascii "99999999999")]], 1, by decide⟩ 0, .ofResult Nat.one_pos, rfl, _, rfl, rfl⟩,
    .ofResult ⟨[[some (ascii "1")]], 1, by decide⟩ 0, .ofResult Nat.one_pos, rfl, rfl⟩

end TaoPQ
