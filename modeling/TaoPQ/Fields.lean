import TaoPQ.Rows

/-!
# Names of columns, and fields

`row::index` looks for a name in the whole result, and then in the row: it finds the first column of the row with that
name (`index_finds_first`).

`field` and `table_field` refer to one column of a row, which a row gives out by position, by name and by iteration
(`field.cpp`, `row.hpp`, `row.cpp`, `table_field.cpp`, `table_row.hpp`, `table_row.cpp`).  A field stores a column of
the result, and passes it to functions of the row that want a column of the row, and add the offset again.  So fields
show the cells of the row exactly if its offset is zero (`fields_agree_iff`).
-/

namespace TaoPQ

/-- What libpq knows of the names of the columns: `PQfname`, and `PQfnumber`, which is -1 if there is no such column. -/
structure ColumnNames where
  fname : Nat → Bytes
  fnumber : Bytes → Int

/-- `PQfnumber` answers the first of the columns with the name that its argument is folded to. -/
def ColumnNames.FindsFirst (N : ColumnNames) (fold : Bytes → Bytes) (columns : Nat) : Prop :=
  ∀ name, (N.fnumber name = -1 ∧ ∀ j < columns, N.fname j ≠ fold name) ∨
    ∃ i < columns, N.fnumber name = i ∧ N.fname i = fold name ∧ ∀ j < i, N.fname j ≠ fold name

/-- What `index` throws. -/
inductive LookupError where
  /-- `std::out_of_range`: column '{}' not found -/
  | notInResult (name : Bytes)
  /-- `std::out_of_range`: column not found: {} -/
  | notInRow (name : Bytes)
  | read (e : ReadError)
  deriving DecidableEq

/-- The exception is a `std::out_of_range`. -/
def LookupError.isOutOfRange : LookupError → Bool
  | notInResult _ => true
  | notInRow _ => true
  | read e => e.isOutOfRange

/-- What comes of looking for a name. -/
abbrev Lookup := ExceptT LookupError Option

/-- The exceptions of a conversion pass through. -/
def Conversion.lookup {β : Type} (x : Conversion β) : Lookup β := ExceptT.adapt LookupError.read x

namespace ResultSet

/-- `result::name` -/
def name (res : ResultSet) (N : ColumnNames) (column : Nat) : Conversion Bytes :=
  if res.columns ≤ column then throw (.column column res.columns) else return N.fname column

/-- `result::index` -/
def index (_ : ResultSet) (N : ColumnNames) (inName : Bytes) : Lookup Nat :=
  let column := N.fnumber inName
  if column < 0 then throw (.notInResult inName) else return column.toNat

end ResultSet

namespace Row

/-- `row::name` -/
def name (r : Row) (N : ColumnNames) (column : Nat) : Conversion Bytes := r.result.name N (r.offset + column)

/-- The loop of `row::index`, over the positions that are left. -/
def indexLoop (r : Row) (N : ColumnNames) (adaptedName : Bytes) : List Nat → Lookup (Option Nat)
  | [] => return none
  | pos :: rest => do
    let name ← (r.name N pos).lookup
    if name = adaptedName then return some pos else indexLoop r N adaptedName rest

/-- `row::index` -/
def index (r : Row) (N : ColumnNames) (inName : Bytes) : Lookup Nat := do
  let n ← r.result.index N inName
  if r.offset ≤ n then
    if n - r.offset < r.columns then return n - r.offset else throw (.notInRow inName)
  else do
    let adaptedName ← (r.result.name N n).lookup
    match ← r.indexLoop N adaptedName (List.range r.columns) with
    | some pos => return pos
    | none => throw (.notInRow inName)

end Row

/-! ### The first column with a name -/

namespace Row

variable {r : Row} {N : ColumnNames} {fold : Bytes → Bytes}

theorem Valid.name (h : r.Valid) {k : Nat} (hk : k < r.columns) : r.name N k = pure (N.fname (r.offset + k)) := by
  have hinside := h.inside.2
  rw [Row.name, ResultSet.name, if_neg (by omega)]

/-- The first position from `a` on at which the name is the one that is looked for, if there is one. -/
theorem Valid.indexLoop_range' (h : r.Valid) (adaptedName : Bytes) (a n : Nat) (hn : a + n ≤ r.columns) :
    (∃ k, r.indexLoop N adaptedName (List.range' a n) = pure (some k) ∧ a ≤ k ∧ k < a + n ∧
        N.fname (r.offset + k) = adaptedName ∧ ∀ j, a ≤ j → j < k → N.fname (r.offset + j) ≠ adaptedName) ∨
      r.indexLoop N adaptedName (List.range' a n) = pure none ∧
        ∀ j, a ≤ j → j < a + n → N.fname (r.offset + j) ≠ adaptedName := by
  induction n generalizing a with
  | zero => exact .inr ⟨rfl, fun j h₁ h₂ => by omega⟩
  | succ n ih =>
    have hname : r.name N a = pure (N.fname (r.offset + a)) := h.name (by omega)
    have hstep : r.indexLoop N adaptedName (List.range' a (n + 1)) =
        if N.fname (r.offset + a) = adaptedName then pure (some a)
        else r.indexLoop N adaptedName (List.range' (a + 1) n) := by
      rw [List.range'_succ, indexLoop, hname]
      rfl
    rw [hstep]
    by_cases hfound : N.fname (r.offset + a) = adaptedName
    · rw [if_pos hfound]
      exact .inl ⟨a, rfl, le_refl a, by omega, hfound, fun j h₁ h₂ => by omega⟩
    · rw [if_neg hfound]
      have before (j : Nat) (h₁ : a ≤ j) (h₂ : a + 1 ≤ j → N.fname (r.offset + j) ≠ adaptedName) :
          N.fname (r.offset + j) ≠ adaptedName := by
        by_cases hj : j = a
        · rwa [hj]
        · exact h₂ (by omega)
      rcases ih (a + 1) (by omega) with ⟨k, hk, h₁, h₂, h₃, h₄⟩ | ⟨hk, h₁⟩
      · exact .inl ⟨k, hk, by omega, by omega, h₃, fun j hj hjk => before j hj fun hj => h₄ j hj hjk⟩
      · exact .inr ⟨hk, fun j hj hjn => before j hj fun hj => h₁ j hj (by omega)⟩

/-- What `row::index` answers: the first column of the row with the name, if there is one. -/
theorem Valid.index_cases (h : r.Valid) (hN : N.FindsFirst fold r.result.columns) (inName : Bytes) :
    (∃ k < r.columns, r.index N inName = pure k ∧ N.fname (r.offset + k) = fold inName ∧
        ∀ j < k, N.fname (r.offset + j) ≠ fold inName) ∨
      ∃ e, r.index N inName = throw e ∧ e.isOutOfRange = true ∧
        ∀ j < r.columns, N.fname (r.offset + j) ≠ fold inName := by
  have hinside := h.inside.2
  rcases hN inName with ⟨hnone, hall⟩ | ⟨i, hi, hnumber, hname, hfirst⟩
  · refine .inr ⟨.notInResult inName, ?_, rfl, fun j hj => hall _ (by omega)⟩
    simp only [index, ResultSet.index, hnone]
    rfl
  · have hresult : r.result.index N inName = pure i := by
      rw [ResultSet.index, hnumber, if_neg (by omega)]
      rfl
    have hindex : r.index N inName =
        if r.offset ≤ i then if i - r.offset < r.columns then pure (i - r.offset) else throw (.notInRow inName)
        else (do
          let adaptedName ← (r.result.name N i).lookup
          let found ← r.indexLoop N adaptedName (List.range r.columns)
          found.elim (throw (.notInRow inName)) pure) := by
      rw [index, hresult]
      change (if r.offset ≤ i then _ else _) = _
      congr 2
      funext adaptedName
      congr 1
      funext found
      cases found <;> rfl
    rw [hindex]
    by_cases hle : r.offset ≤ i
    · rw [if_pos hle]
      by_cases hlt : i - r.offset < r.columns
      · rw [if_pos hlt]
        refine .inl ⟨i - r.offset, hlt, rfl, ?_, fun j hj => hfirst _ (by omega)⟩
        rwa [Nat.add_sub_cancel' hle]
      · rw [if_neg hlt]
        exact .inr ⟨_, rfl, rfl, fun j hj => hfirst _ (by omega)⟩
    · -- the name occurs in front of the row, and is looked for again
      have hadapted : r.result.name N i = pure (fold inName) := by
        rw [ResultSet.name, if_neg (by omega), hname]
      have hloop := h.indexLoop_range' (N := N) (fold inName) 0 r.columns (by omega)
      rw [if_neg hle, hadapted, List.range_eq_range']
      rcases hloop with ⟨k, hk, -, h₂, h₃, h₄⟩ | ⟨hk, h₁⟩
      · refine .inl ⟨k, by omega, ?_, h₃, fun j hj => h₄ j (by omega) hj⟩
        change (do let found ← r.indexLoop N (fold inName) (List.range' 0 r.columns); found.elim _ _) = _
        rw [hk]
        rfl
      · refine .inr ⟨.notInRow inName, ?_, rfl, fun j hj => h₁ j (by omega) (by omega)⟩
        change (do let found ← r.indexLoop N (fold inName) (List.range' 0 r.columns); found.elim _ _) = _
        rw [hk]
        rfl

end Row

/-- `row::index` answers the first column of the row, or of a slice of one, with the folded name, and throws
`std::out_of_range` if there is none. -/
theorem index_finds_first {r : Row} (h : r.Valid) {N : ColumnNames} {fold : Bytes → Bytes}
    (hN : N.FindsFirst fold r.result.columns) (inName : Bytes) :
    (∀ k, r.index N inName = pure k ↔
      k < r.columns ∧ r.name N k = pure (fold inName) ∧ ∀ j < k, r.name N j ≠ pure (fold inName)) ∧
    ((∃ e, r.index N inName = throw e ∧ e.isOutOfRange = true) ↔
      ∀ k < r.columns, r.name N k ≠ pure (fold inName)) := by
  have hname (k : Nat) (hk : k < r.columns) :
      r.name N k = pure (fold inName) ↔ N.fname (r.offset + k) = fold inName := by
    rw [h.name hk]
    exact ⟨fun h => Except.ok.inj (Option.some.inj h), fun h => congrArg _ h⟩
  rcases h.index_cases hN inName with ⟨i, hi, hindex, hfound, hfirst⟩ | ⟨e, hindex, he, hall⟩
  · refine ⟨fun k => ⟨fun hk => ?_, fun ⟨hk, hk', hj⟩ => ?_⟩, fun ⟨e, hthrow, _⟩ => ?_, fun hnone => ?_⟩
    · obtain rfl : i = k := Except.ok.inj (Option.some.inj (hindex.symm.trans hk))
      exact ⟨hi, (hname i hi).2 hfound, fun j hj hname' => hfirst j hj ((hname j (by omega)).1 hname')⟩
    · obtain rfl : k = i := by
        by_contra hne
        rcases Nat.lt_or_gt_of_ne hne with hlt | hgt
        · exact hfirst k hlt ((hname k hk).1 hk')
        · exact hj i hgt ((hname i hi).2 hfound)
      exact hindex
    · cases hindex.symm.trans hthrow
    · exact absurd ((hname i hi).2 hfound) (hnone i hi)
  · refine ⟨fun k => ⟨fun hk => ?_, fun ⟨hk, hk', _⟩ => ?_⟩, fun _ k hk hk' => ?_, fun _ => ⟨e, hindex, he⟩⟩
    · cases hindex.symm.trans hk
    · exact absurd ((hname k hk).1 hk') (hall k hk)
    · exact hall k hk ((hname k hk).1 hk')

/-- How libpq folds a name: letters become lower case outside of quotes, and a doubled quote stands for a quote. -/
def foldName : Bool → Bytes → Bytes
  | _, [] => []
  | true, 34 :: 34 :: rest => 34 :: foldName true rest
  | true, 34 :: rest => foldName false rest
  | true, b :: rest => b :: foldName true rest
  | false, 34 :: rest => foldName true rest
  | false, b :: rest => (if 65 ≤ b ∧ b ≤ 90 then b + 32 else b) :: foldName false rest

/-- The columns of a result with these names. -/
def ColumnNames.of (names : List Bytes) : ColumnNames where
  fname column := names.getD column []
  fnumber name := (names.findIdx? (· == foldName false name)).elim (-1) Int.ofNat

theorem ColumnNames.of_findsFirst (names : List Bytes) :
    (ColumnNames.of names).FindsFirst (foldName false) names.length := by
  intro name
  have hget (j : Nat) (hj : j < names.length) : (ColumnNames.of names).fname j = names[j] :=
    List.getD_eq_getElem names [] hj
  cases hi : names.findIdx? (· == foldName false name) with
  | none =>
    refine .inl ⟨by simp [ColumnNames.of, hi], fun j hj => ?_⟩
    rw [hget j hj]
    simpa using List.findIdx?_eq_none_iff.1 hi _ (List.getElem_mem hj)
  | some i =>
    obtain ⟨hlt, hfound, hfirst⟩ := List.findIdx?_eq_some_iff_getElem.1 hi
    refine .inr ⟨i, hlt, by simp [ColumnNames.of, hi], ?_, fun j hj => ?_⟩
    · rw [hget i hlt]
      simpa using hfound
    · rw [hget j (by omega)]
      simpa using hfirst j hj

/-- A name that occurs in front of a slice and in it. -/
theorem index_finds_first_twice :
    let N := ColumnNames.of [ascii "a", ascii "b", ascii "a"]
    ∃ r, (Row.ofResult ⟨[[some (ascii "1"), some (ascii "2"), some (ascii "3")]], 3, by decide⟩ 0).slice 1 2 = pure r ∧
      r.index N (ascii "A") = pure 1 := by
  intro N
  refine ⟨_, rfl, ?_⟩
  have hwhole : (Row.ofResult ⟨[[some (ascii "1"), some (ascii "2"), some (ascii "3")]], 3, by decide⟩ 0).Valid :=
    .ofResult Nat.one_pos
  have hvalid := hwhole.slice (show Row.slice _ 1 2 = pure _ from rfl)
  have hN : N.FindsFirst (foldName false) 3 := ColumnNames.of_findsFirst _
  obtain ⟨hindex, -⟩ := index_finds_first hvalid hN (ascii "A")
  refine (hindex 1).2 ⟨by decide, rfl, fun j hj hname => ?_⟩
  obtain rfl : j = 0 := Nat.lt_one_iff.1 hj
  have hb : ascii "b" = foldName false (ascii "A") := Except.ok.inj (Option.some.inj hname)
  revert hb
  decide

/-! ### Fields -/

/-- `field` -/
structure Field where
  row : Row
  column : Nat

/-- `table_field` -/
structure TableField where
  row : View
  column : Nat

/-- The loop from `begin` to `end`, where iterators are compared by their `index`, with a bound on its rounds. -/
def iterate {φ : Type} (index : φ → Nat) (next : φ → φ) (stop : φ) : Nat → φ → Option (List φ)
  | 0, _ => none
  | n + 1, f => if index f = index stop then some [] else (iterate index next stop n (next f)).map (f :: ·)

namespace Field

/-- `field::name` -/
def name (f : Field) (N : ColumnNames) : Conversion Bytes := f.row.name N f.column

/-- `field::index` -/
def index (f : Field) : Nat := f.column - f.row.offset

/-- `field::is_null` -/
def isNull (f : Field) : Conversion Bool := f.row.isNull f.column

/-- `field::get` -/
def get (f : Field) : Conversion Bytes := f.row.get f.column

/-- `field::as`, for a type with one column. -/
def as {α : Type} (f : Field) (t : ResultType α) : Conversion (ResultValue α) := t.get Row.rowClass f.row f.column

/-- `row::const_iterator::operator++` -/
def next (f : Field) : Field := { f with column := f.column + 1 }

end Field

namespace Row

/-- `row::operator[]( const std::size_t )` -/
def field (r : Row) (column : Nat) : Field := ⟨r, r.offset + column⟩

/-- `row::at( const std::size_t )` -/
def fieldAt (r : Row) (column : Nat) : Conversion Field := do
  r.ensureColumn column
  return ⟨r, r.offset + column⟩

/-- `row::operator[]( const internal::zsv )` -/
def fieldNamed (r : Row) (N : ColumnNames) (inName : Bytes) : Lookup Field := do
  let column ← r.index N inName
  return r.field column

/-- `row::at( const internal::zsv )` -/
def fieldAtName (r : Row) (N : ColumnNames) (inName : Bytes) : Lookup Field := do
  let column ← r.index N inName
  return r.field column

/-- `row::begin` -/
def begin (r : Row) : Field := ⟨r, r.offset⟩

/-- `row::end` -/
def stop (r : Row) : Field := ⟨r, r.offset + r.columns⟩

end Row

namespace TableField

/-- `table_field::index` -/
def index (f : TableField) : Nat := f.column - f.row.row.offset

/-- `table_field::is_null` -/
def isNull (f : TableField) : Conversion Bool := f.row.isNull f.column

/-- `table_field::get`, with the entry of `raw_data`. -/
def get (f : TableField) : Conversion (Option Nat) := f.row.get f.column

/-- `table_field::as`, for a type with one column. -/
def as {α : Type} (f : TableField) (t : ResultType α) : Conversion (ResultValue α) :=
  t.get View.rowClass f.row f.column

/-- `table_row::const_iterator::operator++` -/
def next (f : TableField) : TableField := { f with column := f.column + 1 }

end TableField

namespace View

/-- `table_row::operator[]` -/
def field (v : View) (column : Nat) : TableField := ⟨v, v.row.offset + column⟩

/-- `table_row::at` -/
def fieldAt (v : View) (column : Nat) : Conversion TableField := do
  v.ensureColumn column
  return ⟨v, v.row.offset + column⟩

/-- `table_row::begin` -/
def begin (v : View) : TableField := ⟨v, v.row.offset⟩

/-- `table_row::end` -/
def stop (v : View) : TableField := ⟨v, v.row.offset + v.row.columns⟩

end View

/-! ### What a field shows -/

/-- The field shows what the row shows in its column `k`. -/
structure Row.Denotes (r : Row) (N : ColumnNames) (α : Type) (f : Field) (k : Nat) : Prop where
  index : f.index = k
  name : f.name N = r.name N k
  isNull : f.isNull = r.isNull k
  get : f.get = r.get k
  as : ∀ t : ResultType α, t.size = 1 → f.as t = t.get Row.rowClass r k

/-- All ways to the fields of a row lead to what the row shows. -/
structure Row.FieldsAgree (r : Row) (N : ColumnNames) (α : Type) : Prop where
  field : ∀ k < r.columns, r.Denotes N α (r.field k) k
  fieldAt : ∀ k < r.columns, ∃ f, r.fieldAt k = pure f ∧ r.Denotes N α f k
  iteration : ∃ fs, (∀ n, r.columns < n → iterate Field.index Field.next r.stop n r.begin = some fs) ∧
    fs.length = r.columns ∧ ∀ k f, fs[k]? = some f → r.Denotes N α f k
  named : ∀ inName, ∀ k < r.columns, r.index N inName = pure k →
    ∃ f, r.fieldNamed N inName = pure f ∧ r.fieldAtName N inName = pure f ∧ r.Denotes N α f k

/-- The field shows what the row shows in its column `k`. -/
structure View.Denotes (v : View) (α : Type) (f : TableField) (k : Nat) : Prop where
  index : f.index = k
  isNull : f.isNull = v.isNull k
  get : f.get = v.get k
  as : ∀ t : ResultType α, t.size = 1 → f.as t = t.get View.rowClass v k

/-- All ways to the fields of a row lead to what the row shows. -/
structure View.FieldsAgree (v : View) (α : Type) : Prop where
  field : ∀ k < v.row.columns, v.Denotes α (v.field k) k
  fieldAt : ∀ k < v.row.columns, ∃ f, v.fieldAt k = pure f ∧ v.Denotes α f k
  iteration : ∃ fs, (∀ n, v.row.columns < n → iterate TableField.index TableField.next v.stop n v.begin = some fs) ∧
    fs.length = v.row.columns ∧ ∀ k f, fs[k]? = some f → v.Denotes α f k

/-- A loop over indices that grow by one. -/
theorem iterate_eq {φ : Type} (index : φ → Nat) (next : φ → φ) (stop : φ) (place : Nat → φ)
    (hindex : ∀ k, index (place k) = k) (hnext : ∀ k, next (place k) = place (k + 1)) {count : Nat}
    (hstop : index stop = count) {n k : Nat} (hk : k ≤ count) (hn : count - k < n) :
    iterate index next stop n (place k) = some ((List.range' k (count - k)).map place) := by
  induction n generalizing k with
  | zero => omega
  | succ n ih =>
    rw [iterate, hindex, hstop]
    by_cases hlast : k = count
    · rw [if_pos hlast, hlast, Nat.sub_self]
      rfl
    · have hsucc : count - k = (count - (k + 1)) + 1 := by omega
      rw [if_neg hlast, hnext, ih (by omega) (by omega), hsucc, List.range'_succ]
      rfl

namespace Row

variable {r : Row} {N : ColumnNames} {α : Type}

/-- A slice has columns. -/
theorem Valid.offset_eq_zero (h : r.Valid) (hc : r.columns = 0) : r.offset = 0 := by
  cases h with
  | ofResult _ => rfl
  | slice _ hslice =>
    unfold Row.slice at hslice
    split at hslice
    · cases hslice
    · split at hslice
      · cases hslice
      · rename_i hn _
        cases hslice
        exact absurd hc hn

/-- The fields from `begin` to `end`. -/
theorem iterate_fields (r : Row) {n : Nat} (hn : r.columns < n) :
    iterate Field.index Field.next r.stop n r.begin = some ((List.range r.columns).map r.field) := by
  have h := iterate_eq Field.index Field.next r.stop r.field
    (fun k => Nat.add_sub_cancel_left _ _) (fun _ => rfl) (Nat.add_sub_cancel_left _ _) (Nat.zero_le _) hn
  rwa [Nat.sub_zero, ← List.range_eq_range'] at h

theorem denotes_of_offset (h : r.offset = 0) (k : Nat) : r.Denotes N α (r.field k) k := by
  have hfield : r.field k = ⟨r, k⟩ := by rw [field, h, Nat.zero_add]
  rw [hfield]
  exact ⟨by rw [Field.index, h, Nat.sub_zero], rfl, rfl, rfl, fun _ _ => rfl⟩

/-- In the last column of a row that does not begin with the first column of the result, `field::is_null` throws. -/
theorem Valid.last_isNull (h : r.Valid) (hoffset : r.offset ≠ 0) :
    (r.field (r.columns - 1)).isNull ≠ r.isNull (r.columns - 1) := by
  have hpos : 0 < r.columns := Nat.pos_of_ne_zero fun hc => hoffset (h.offset_eq_zero hc)
  have hthrow : (r.field (r.columns - 1)).isNull = throw (.column (r.offset + (r.columns - 1)) r.columns) := by
    rw [Field.isNull, field, Row.isNull, ensureColumn, if_pos (by dsimp only; omega)]
    rfl
  rw [hthrow, h.isNull (by omega)]
  intro heq
  cases heq

theorem Valid.fieldsAgree_iff (h : r.Valid) : r.FieldsAgree N α ↔ r.offset = 0 := by
  refine ⟨fun hagree => ?_, fun hoffset => ⟨fun k _ => denotes_of_offset hoffset k, fun k hk => ?_, ?_, ?_⟩⟩
  · by_contra hoffset
    have hpos : 0 < r.columns := Nat.pos_of_ne_zero fun hc => hoffset (h.offset_eq_zero hc)
    exact h.last_isNull hoffset (hagree.field _ (by omega)).isNull
  · refine ⟨r.field k, ?_, denotes_of_offset hoffset k⟩
    rw [fieldAt, ensureColumn, if_neg (by omega)]
    rfl
  · refine ⟨_, fun n hn => r.iterate_fields hn, by simp, fun k f hf => ?_⟩
    obtain ⟨_, hf⟩ := List.getElem?_eq_some_iff.1 hf
    obtain rfl : r.field k = f := by simpa using hf
    exact denotes_of_offset hoffset k
  · intro inName k _ hindex
    refine ⟨r.field k, ?_, ?_, denotes_of_offset hoffset k⟩
    · rw [fieldNamed, hindex]
      rfl
    · rw [fieldAtName, hindex]
      rfl

end Row

namespace View

variable {v : View} {fs : List (Option Bytes)} {α : Type}

/-- A slice has columns. -/
theorem Valid.offset_eq_zero (h : Valid fs v) (hc : v.row.columns = 0) : v.row.offset = 0 := by
  cases h with
  | read hpresents _ => rw [hpresents.row]
  | slice _ hslice =>
    unfold View.slice at hslice
    split at hslice
    · cases hslice
    · split at hslice
      · cases hslice
      · rename_i hn _
        cases hslice
        exact absurd hc hn

theorem iterate_fields (v : View) {n : Nat} (hn : v.row.columns < n) :
    iterate TableField.index TableField.next v.stop n v.begin = some ((List.range v.row.columns).map v.field) := by
  have h := iterate_eq TableField.index TableField.next v.stop v.field
    (fun k => Nat.add_sub_cancel_left _ _) (fun _ => rfl) (Nat.add_sub_cancel_left _ _) (Nat.zero_le _) hn
  rwa [Nat.sub_zero, ← List.range_eq_range'] at h

theorem denotes_of_offset (h : v.row.offset = 0) (k : Nat) : v.Denotes α (v.field k) k := by
  have hfield : v.field k = ⟨v, k⟩ := by rw [field, h, Nat.zero_add]
  rw [hfield]
  exact ⟨by rw [TableField.index, h, Nat.sub_zero], rfl, rfl, fun _ _ => rfl⟩

theorem Valid.last_get (h : Valid fs v) (hoffset : v.row.offset ≠ 0) :
    (v.field (v.row.columns - 1)).get ≠ v.get (v.row.columns - 1) := by
  have hpos : 0 < v.row.columns := Nat.pos_of_ne_zero fun hc => hoffset (h.offset_eq_zero hc)
  have hthrow : (v.field (v.row.columns - 1)).get =
      throw (.column (v.row.offset + (v.row.columns - 1)) v.row.columns) := by
    rw [TableField.get, field, View.get, ensureColumn, if_pos (by dsimp only; omega)]
    rfl
  have hlast : v.row.columns - 1 < v.row.columns := by omega
  obtain ⟨p, hp, -⟩ := h.get hlast
  rw [hthrow, hp]
  intro heq
  cases heq

theorem Valid.fieldsAgree_iff (h : Valid fs v) : v.FieldsAgree α ↔ v.row.offset = 0 := by
  refine ⟨fun hagree => ?_, fun hoffset => ⟨fun k _ => denotes_of_offset hoffset k, fun k hk => ?_, ?_⟩⟩
  · by_contra hoffset
    have hpos : 0 < v.row.columns := Nat.pos_of_ne_zero fun hc => hoffset (h.offset_eq_zero hc)
    exact h.last_get hoffset (hagree.field _ (by omega)).get
  · refine ⟨v.field k, ?_, denotes_of_offset hoffset k⟩
    rw [fieldAt, ensureColumn, if_neg (by omega)]
    rfl
  · refine ⟨_, fun n hn => v.iterate_fields hn, by simp, fun k f hf => ?_⟩
    obtain ⟨_, hf⟩ := List.getElem?_eq_some_iff.1 hf
    obtain rfl : v.field k = f := by simpa using hf
    exact denotes_of_offset hoffset k

end View

/-- The fields of a row of a result, or of a table reader, or of a slice of one, show what the row shows exactly if its
offset is zero. -/
theorem fields_agree_iff (N : ColumnNames) (α : Type) :
    (∀ r : Row, r.Valid → (r.FieldsAgree N α ↔ r.offset = 0)) ∧
    ∀ fs (v : View), View.Valid fs v → (v.FieldsAgree α ↔ v.row.offset = 0) :=
  ⟨fun _ h => h.fieldsAgree_iff, fun _ _ h => h.fieldsAgree_iff⟩

theorem fields_agree_whole : (Row.ofResult ⟨[[some (ascii "1"), none]], 2, by decide⟩ 0).FieldsAgree
    (ColumnNames.of [ascii "a", ascii "b"]) Int :=
  ((fields_agree_iff _ Int).1 _ (.ofResult Nat.one_pos)).2 rfl

/-- The second of two columns, as a slice: its field throws, although the cell is there. -/
theorem fields_disagree : ∃ r : Row, r.Valid ∧ r.offset = 1 ∧ r.columns = 1 ∧
    (r.field 0).get = throw (.column 1 1) ∧ r.get 0 = pure (ascii "2") ∧
    ¬ r.FieldsAgree (ColumnNames.of [ascii "a", ascii "b"]) Int := by
  have hwhole : (Row.ofResult ⟨[[some (ascii "1"), some (ascii "2")]], 2, by decide⟩ 0).Valid := .ofResult Nat.one_pos
  have hvalid := hwhole.slice (show Row.slice _ 1 1 = pure _ from rfl)
  refine ⟨_, hvalid, rfl, rfl, rfl, rfl, fun hagree => ?_⟩
  have hget := (hagree.field 0 Nat.one_pos).get
  cases hget

end TaoPQ
