import TaoPQ.CopyOut
import TaoPQ.TableReader

/-!
# Iterating a table reader

`table_reader::get_row`, the input iterator of a table reader, and the range-based `for` loop over it
(`table_reader.hpp`, `table_reader.cpp`).  `begin` reads the first row, but does not look whether there was one, and
the position that it returns has all the columns in any case.  Where `get_row` throws, `operator++` ends the program.
-/

namespace TaoPQ

open Exec

/-- `table_row`: the columns of a row of a table reader. -/
structure TableRow where
  offset : Nat
  columns : Nat
  deriving DecidableEq, Repr

/-- A table reader and everything it can reach: the connection with its objects, and the memory that `parse_data`
works on. -/
structure Reading (DB : Type) where
  state : State DB
  row : RowData

/-- What the body of a loop sees: the row that it is given, and the memory that the row refers to. -/
structure View where
  row : TableRow
  memory : RowData

namespace TableReader

variable {DB : Type} (W : World) (b : Nat)

def onState {α : Type} (x : Prog DB α) : Exec (Reading DB) Exn α :=
  Exec.zoom Reading.state (fun s r => { r with state := s }) x

/-- `table_reader::get_row`.  Behind the data, libpq puts a byte `0`. -/
def getRow : Exec (Reading DB) Exn Bool := do
  let _ ← onState (getRawData W b)
  let k ← onState (derefBulk b)
  Exec.modify fun r => { r with row := ⟨k.buffer.map cString, r.row.data, k.columns⟩ }
  Exec.zoom Reading.row (fun d r => { r with row := d }) parseData

/-- `table_reader::begin` -/
def begin : Exec (Reading DB) Exn TableRow := do
  let _ ← getRow W b
  let r ← Exec.get
  return ⟨0, r.row.columns⟩

/-- `table_reader::end` -/
def last : TableRow := ⟨0, 0⟩

/-- `const_iterator::operator++`, which is `noexcept`: an exception ends the program. -/
def increment (it : TableRow) : Exec (Reading DB) Exn TableRow := do
  let more ← Exec.catchAll (getRow W b) fun _ => Exec.undefined
  return if more then it else { it with columns := 0 }

/-- `operator==` of the iterators. -/
def equal (lhs rhs : TableRow) : Bool := lhs.columns == rhs.columns

variable {τ : Type} (body : View → τ → Except Exn τ)

/-- The body of a loop, with what it changes. -/
def runBody (it : TableRow) (t : τ) : Exec (Reading DB) Exn τ := do
  let r ← Exec.get
  match body ⟨it, r.row⟩ t with
  | .ok t => return t
  | .error e => Exec.throw e

/-- The rounds of a range-based `for` loop. -/
def rangeForLoop : (fuel : Nat) → TableRow → τ → Exec (Reading DB) Exn τ
  | 0, _, _ => Exec.undefined
  | fuel + 1, it, t =>
    if equal it last then return t
    else do
      let t ← runBody body it t
      let it ← increment W b it
      rangeForLoop fuel it t

/-- `for( const auto& row : reader )`.  Every round reads a row, or ends the loop. -/
def rangeFor (t : τ) : Exec (Reading DB) Exn τ := do
  let r ← Exec.get
  let it ← begin W b
  rangeForLoop W b body (Connection.rowsPending r.state.conn + 2) it t

/-- So many calls of `get_row`. -/
def getRows : Nat → Exec (Reading DB) Exn (List Bool)
  | 0 => return []
  | m + 1 => do
    let more ← getRow W b
    let rest ← getRows m
    return more :: rest

/-! ### One call of `get_row` -/

/-- What the loop gives to its body for a row: all columns refer to entries of `raw_data`, which point to the fields. -/
structure Presents (columns : Nat) (v : View) (fs : List (Option Bytes)) : Prop where
  row : v.row = ⟨0, columns⟩
  entries : v.memory.data.length = columns
  fields : ∃ m, v.memory.buffer = some m ∧ List.Forall₂ (PointsTo m) v.memory.data fs

section Rows

variable {W : World} {b : Nat} {r : Reading DB} {columns : Nat} {answer : PGresult} {fs : List (Option Bytes)}
  {lines total : List Chunk} {completes : Bool}

/-- A row of the COPY is read and decoded, once it has arrived. -/
theorem wp_getRow_row (h : r.state.Copying b columns (CopyOutput.row fs :: lines) answer) (hcols : 0 < columns)
    (hlength : fs.length = columns) (hfs : ∀ x ∈ fs, NulFree x) :
    wp False (getRow W b) (fun more r' => more = true ∧ r'.state.Copying b columns lines answer ∧
      r'.row.columns = columns ∧ Presents columns ⟨⟨0, columns⟩, r'.row⟩ fs ∧
      W.wait r.state.conn.pg.clock = .ready ∧ r'.state.conn.pg.clock = r.state.conn.pg.clock + 1)
      (fun _ _ => W.wait r.state.conn.pg.clock ≠ .ready) r := by
  simp only [getRow, onState, wp_bind, wp_zoom, wp_modify, wp_derefBulk]
  refine wp_mono (wp_getRawData_row h) (fun data s' h' => ?_) (fun _ _ => id)
  obtain ⟨-, hcopying, ⟨k, hk, hbuffer, hcolumns⟩, hready, hclock⟩ := h'
  refine ⟨fun k' hk' => ?_, fun hn => by simp [hk] at hn⟩
  obtain rfl := Option.some.inj (hk.symm.trans hk')
  have hne : fs ≠ [] := by
    rintro rfl
    simp at hlength
    omega
  obtain ⟨m, qs, hqs, hparse⟩ :=
    parseDataLoop_row (ε := Exn) hne hfs [] [Byte.nul] (.nil : List.Forall₂ (PointsTo []) [] []) (Nat.zero_add _) _ (le_refl _)
  rw [hbuffer, hcolumns, ← hlength]
  exact wp_of_ret hparse ⟨rfl, hlength ▸ hcopying, rfl, ⟨rfl, hqs.length_eq, m, rfl, hqs⟩, hready, hclock⟩

/-- Behind the last row, `get_row` returns `false` exactly if the COPY was completed and its result arrives.  The reader
has let go of the connection then. -/
theorem wp_getRow_end (h : r.state.Copying b columns [] (copyAnswer total completes)) :
    wp False (getRow W b) (fun more r' => more = false ∧ r'.state.bulk b = some ⟨true, none, none, columns, none⟩ ∧
      r'.row = ⟨none, [], columns⟩ ∧ completes = true ∧ W.DeliversRows 0 r.state.conn.pg.clock)
      (fun _ _ => ¬ (completes = true ∧ W.DeliversRows 0 r.state.conn.pg.clock)) r := by
  simp only [getRow, onState, wp_bind, wp_zoom, wp_modify, wp_derefBulk]
  cases completes with
  | false => exact wp_mono (wp_getRawData_failed h rfl) (fun _ _ => False.elim) fun _ _ _ hd => Bool.false_ne_true hd.1
  | true =>
    refine wp_mono (wp_getRawData_done h rfl) (fun data s' h' => ?_) fun _ _ hn hd => hn hd.2
    obtain ⟨-, -, -, -, -, hk, hdelivers⟩ := h'
    refine ⟨fun k' hk' => ?_, fun hn => by simp [hk] at hn⟩
    obtain rfl := Option.some.inj (hk.symm.trans hk')
    exact ⟨rfl, hk, rfl, rfl, hdelivers⟩

theorem getRow_row (hready : W.wait r.state.conn.pg.clock = .ready)
    (h : r.state.Copying b columns (CopyOutput.row fs :: lines) answer) (hcols : 0 < columns)
    (hlength : fs.length = columns) (hfs : ∀ x ∈ fs, NulFree x) :
    ∃ r', getRow W b r = .ret true r' ∧ r'.state.Copying b columns lines answer ∧ r'.row.columns = columns ∧
      Presents columns ⟨⟨0, columns⟩, r'.row⟩ fs ∧ r'.state.conn.pg.clock = r.state.conn.pg.clock + 1 := by
  have hreturns := wp_mono (wp_getRow_row (W := W) h hcols hlength hfs) (fun _ _ => id) fun _ _ hn => hn hready
  obtain ⟨v, r', hr', rfl, hcopying, hcolumns, hpresents, -, hclock⟩ := exists_ret hreturns
  exact ⟨r', hr', hcopying, hcolumns, hpresents, hclock⟩

theorem getRow_end (hdelivers : W.DeliversRows 0 r.state.conn.pg.clock)
    (h : r.state.Copying b columns [] (copyAnswer total true)) :
    ∃ r', getRow W b r = .ret false r' ∧ r'.state.bulk b = some ⟨true, none, none, columns, none⟩ ∧
      r'.row = ⟨none, [], columns⟩ := by
  have hreturns := wp_mono (wp_getRow_end (W := W) h) (fun _ _ => id) fun _ _ hn => hn ⟨rfl, hdelivers⟩
  obtain ⟨v, r', hr', rfl, hk, hrow, -⟩ := exists_ret hreturns
  exact ⟨r', hr', hk, hrow⟩

/-- A further call follows the pointer to the guard, which is null. -/
theorem getRow_released (h : r.state.bulk b = some ⟨true, none, none, columns, none⟩) : getRow W b r = .undefined := by
  have hundefined : onState (getRawData W b) r = .undefined := zoom_undefined _ (getRawData_released h)
  exact bind_undefined hundefined _

/-! ### The loop -/

/-- What is left behind when a body has been run for one view after the other, and the loop ends normally only when
the body never throws. -/
def outcomeOf {τ : Type} (x : Except Exn τ) (r : Reading DB) : Outcome (Reading DB) Exn τ :=
  match x with
  | .ok t => .ret t r
  | .error e => .throw e r

/-- A position that has columns is not the end. -/
private theorem not_last (hcols : 0 < columns) : equal ⟨0, columns⟩ last = false := by
  simp only [equal, last, beq_eq_false_iff_ne, ne_eq]
  omega

section Steps

variable {τ : Type} {body : View → τ → Except Exn τ} {it : TableRow} {t : τ} {r' : Reading DB}

private theorem runBody_ok {t' : τ} (h : body ⟨it, r.row⟩ t = .ok t') : runBody body it t r = .ret t' r := by
  refine bind_ret (rfl : Exec.get r = .ret r r) _ |>.trans ?_
  rw [h]
  rfl

private theorem runBody_error {e : Exn} (h : body ⟨it, r.row⟩ t = .error e) : runBody body it t r = .throw e r := by
  refine bind_ret (rfl : Exec.get r = .ret r r) _ |>.trans ?_
  rw [h]
  rfl

private theorem increment_ret {more : Bool} (h : getRow W b r = .ret more r') :
    increment W b it r = .ret (if more then it else { it with columns := 0 }) r' := by
  refine bind_ret ?_ _
  unfold Exec.catchAll
  rw [h]

/-- Where `get_row` does not return, there is no next position. -/
private theorem increment_undefined (h : ∀ more r', getRow W b r ≠ .ret more r') :
    increment W b it r = .undefined := by
  refine bind_undefined ?_ _
  unfold Exec.catchAll
  cases hrow : getRow W b r with
  | ret more r' => exact absurd hrow (h more r')
  | _ => rfl

/-- One round: the body, and the step to the next row. -/
private theorem rangeForLoop_ok (hopen : equal it last = false) {t' : τ} (h : body ⟨it, r.row⟩ t = .ok t')
    {more : Bool} (hrow : getRow W b r = .ret more r') (fuel : Nat) :
    rangeForLoop W b body (fuel + 1) it t r =
      rangeForLoop W b body fuel (if more then it else { it with columns := 0 }) t' r' := by
  rw [rangeForLoop, hopen, if_neg Bool.false_ne_true, bind_ret (runBody_ok h), bind_ret (increment_ret hrow)]

private theorem rangeForLoop_undefined (hopen : equal it last = false) {t' : τ} (h : body ⟨it, r.row⟩ t = .ok t')
    (hrow : ∀ more r', getRow W b r ≠ .ret more r') (fuel : Nat) :
    rangeForLoop W b body (fuel + 1) it t r = .undefined := by
  rw [rangeForLoop, hopen, if_neg Bool.false_ne_true, bind_ret (runBody_ok h), bind_undefined (increment_undefined hrow)]

private theorem rangeForLoop_error (hopen : equal it last = false) {e : Exn} (h : body ⟨it, r.row⟩ t = .error e)
    (fuel : Nat) : rangeForLoop W b body (fuel + 1) it t r = .throw e r := by
  rw [rangeForLoop, hopen, if_neg Bool.false_ne_true, bind_throw (runBody_error h)]

private theorem rangeForLoop_last (fuel : Nat) (offset : Nat) :
    rangeForLoop W b body (fuel + 1) ⟨offset, 0⟩ t r = .ret t r := by
  have hclosed : equal ⟨offset, 0⟩ last = true := rfl
  rw [rangeForLoop, if_pos hclosed]
  rfl

/-- A loop that comes to its end has read the next row, if there was nothing wrong with the body. -/
private theorem getRow_of_rangeForLoop (hopen : equal it last = false) {t' t'' : τ} (h : body ⟨it, r.row⟩ t = .ok t')
    {fuel : Nat} (hret : rangeForLoop W b body fuel it t r = .ret t'' r') :
    ∃ k more r₁, getRow W b r = .ret more r₁ ∧
      rangeForLoop W b body k (if more then it else { it with columns := 0 }) t' r₁ = .ret t'' r' := by
  cases fuel with
  | zero => cases hret
  | succ k =>
    by_cases hrow : ∃ more r₁, getRow W b r = .ret more r₁
    · obtain ⟨more, r₁, hr₁⟩ := hrow
      exact ⟨k, more, r₁, hr₁, (rangeForLoop_ok hopen h hr₁ k).symm.trans hret⟩
    · rw [rangeForLoop_undefined hopen h fun more r₁ hr₁ => hrow ⟨more, r₁, hr₁⟩] at hret
      cases hret

end Steps

/-- From a row on, the body is run for this row and for those that are still to be read. -/
private theorem rangeForLoop_rows (hcols : 0 < columns) (rows : List (List (Option Bytes)))
    (hrows : ∀ fs ∈ rows, fs.length = columns ∧ ∀ x ∈ fs, NulFree x) (r : Reading DB)
    (h : r.state.Copying b columns (rows.map CopyOutput.row) (copyAnswer total true))
    (hdelivers : W.DeliversRows rows.length r.state.conn.pg.clock) :
    ∃ views, List.Forall₂ (Presents columns) views rows ∧
      ∀ (τ : Type) (body : View → τ → Except Exn τ) (t : τ) (fuel : Nat), rows.length + 2 ≤ fuel →
        ∃ r', rangeForLoop W b body fuel ⟨0, columns⟩ t r =
          outcomeOf ((⟨⟨0, columns⟩, r.row⟩ :: views).foldlM (fun t v => body v t) t) r' := by
  have hopen := not_last hcols
  induction rows generalizing r with
  | nil =>
    obtain ⟨r₁, hr₁, _, _⟩ := getRow_end hdelivers h
    refine ⟨[], .nil, fun τ body t fuel hfuel => ?_⟩
    obtain ⟨fuel, rfl⟩ : ∃ k, fuel = k + 2 := ⟨fuel - 2, by simp at hfuel; omega⟩
    cases hbody : body ⟨⟨0, columns⟩, r.row⟩ t with
    | ok t' =>
      refine ⟨r₁, ?_⟩
      rw [rangeForLoop_ok hopen hbody hr₁]
      simp only [Bool.false_eq_true, ↓reduceIte, rangeForLoop_last, List.foldlM_cons, List.foldlM_nil, hbody]
      rfl
    | error e =>
      refine ⟨r, ?_⟩
      rw [rangeForLoop_error hopen hbody, List.foldlM_cons, hbody]
      rfl
  | cons fs rows ih =>
    obtain ⟨hlength, hfs⟩ := hrows fs List.mem_cons_self
    obtain ⟨hready, hdelivers⟩ := World.deliversRows_succ.1 hdelivers
    obtain ⟨r₁, hr₁, hcopying, hcolumns, hpresents, hclock⟩ := getRow_row hready h hcols hlength hfs
    obtain ⟨views, hviews, hloop⟩ :=
      ih (fun x hx => hrows x (List.mem_cons_of_mem fs hx)) r₁ hcopying (hclock ▸ hdelivers)
    refine ⟨_ :: views, .cons hpresents hviews, fun τ body t fuel hfuel => ?_⟩
    obtain ⟨fuel, rfl⟩ : ∃ k, fuel = k + 1 := ⟨fuel - 1, by omega⟩
    cases hbody : body ⟨⟨0, columns⟩, r.row⟩ t with
    | ok t' =>
      obtain ⟨r', hr'⟩ := hloop τ body t' fuel (by simp at hfuel; omega)
      refine ⟨r', ?_⟩
      have hfold : List.foldlM (fun t v => body v t) t
          (⟨⟨0, columns⟩, r.row⟩ :: ⟨⟨0, columns⟩, r₁.row⟩ :: views) =
            List.foldlM (fun t v => body v t) t' (⟨⟨0, columns⟩, r₁.row⟩ :: views) := by
        rw [List.foldlM_cons, hbody]
        rfl
      rw [rangeForLoop_ok hopen hbody hr₁, if_pos rfl, hr', hfold]
    | error e =>
      refine ⟨r, ?_⟩
      rw [rangeForLoop_error hopen hbody, List.foldlM_cons, hbody]
      rfl

/-- When a loop whose body never throws comes to its end, the COPY was completed, and everything has arrived. -/
private theorem delivers_of_rangeForLoop (hcols : 0 < columns) (rows : List (List (Option Bytes)))
    (hrows : ∀ fs ∈ rows, fs.length = columns ∧ ∀ x ∈ fs, NulFree x) {r r' : Reading DB}
    (h : r.state.Copying b columns (rows.map CopyOutput.row) (copyAnswer total completes)) {fuel : Nat} {t : Unit}
    (hret : rangeForLoop W b (fun _ _ => .ok ()) fuel ⟨0, columns⟩ () r = .ret t r') :
    completes = true ∧ W.DeliversRows rows.length r.state.conn.pg.clock := by
  induction rows generalizing r fuel with
  | nil =>
    obtain ⟨k, more, r₁, hr₁, -⟩ := getRow_of_rangeForLoop (not_last hcols) rfl hret
    obtain ⟨-, -, -, hdelivers⟩ := wp_ret (wp_getRow_end h) hr₁
    exact hdelivers
  | cons fs rows ih =>
    obtain ⟨hlength, hfs⟩ := hrows fs List.mem_cons_self
    obtain ⟨k, more, r₁, hr₁, hret⟩ := getRow_of_rangeForLoop (not_last hcols) rfl hret
    obtain ⟨rfl, hcopying, -, -, hready, hclock⟩ := wp_ret (wp_getRow_row h hcols hlength hfs) hr₁
    obtain ⟨hcompletes, hdelivers⟩ := ih (fun x hx => hrows x (List.mem_cons_of_mem fs hx)) hcopying hret
    exact ⟨hcompletes, World.deliversRows_succ.2 ⟨hready, hclock ▸ hdelivers⟩⟩

end Rows

/-! ### What iterating visits -/

/-- A `for` loop over the reader runs its body once for each of the rows, in their order, and for nothing else. -/
def Visits (W : World) (b : Nat) (r : Reading DB) (columns : Nat) (rows : List (List (Option Bytes))) : Prop :=
  ∃ views, List.Forall₂ (Presents columns) views rows ∧
    ∀ (τ : Type) (body : View → τ → Except Exn τ) (t : τ),
      ∃ r', rangeFor W b body t r = outcomeOf (views.foldlM (fun t v => body v t) t) r'

/-- `begin() == end()` tells whether there are rows. -/
def BeginsAtEnd (W : World) (b : Nat) (r : Reading DB) (rows : List (List (Option Bytes))) : Prop :=
  ∃ it r', begin W b r = .ret it r' ∧ (equal it last = true ↔ rows = [])

/-- So many calls of `get_row` return `true` as often as there are rows, and `false` from then on. -/
def Counts (W : World) (b : Nat) (r : Reading DB) (rows : List (List (Option Bytes))) (m : Nat) : Prop :=
  ∃ r', getRows W b m r = .ret ((List.range m).map fun k => decide (k < rows.length)) r'

section Iteration

variable {W : World} {b : Nat} {s : State DB} {columns : Nat} {rows : List (List (Option Bytes))} {total : List Chunk}
  {completes : Bool}

/-- `begin` asks for the first row only. -/
private theorem begin_ret {r r' : Reading DB} {more : Bool} (h : getRow W b r = .ret more r') :
    begin W b r = .ret ⟨0, r'.row.columns⟩ r' := by
  rw [begin, bind_ret h]
  rfl

private theorem getRow_of_begin {r r' : Reading DB} {it : TableRow} (h : begin W b r = .ret it r') :
    ∃ more, getRow W b r = .ret more r' := by
  cases hrow : getRow W b r with
  | ret more r₁ =>
    obtain ⟨-, rfl⟩ := Outcome.ret.inj ((begin_ret hrow).symm.trans h)
    exact ⟨more, rfl⟩
  | throw e r₁ => rw [begin, bind_throw hrow] at h; cases h
  | undefined => rw [begin, bind_undefined hrow] at h; cases h

private theorem rangeFor_eq {τ : Type} {body : View → τ → Except Exn τ} {t : τ} {r r' : Reading DB} {it : TableRow}
    (h : begin W b r = .ret it r') :
    rangeFor W b body t r = rangeForLoop W b body (Connection.rowsPending r.state.conn + 2) it t r' := by
  rw [rangeFor, bind_ret (rfl : Exec.get r = .ret r r), bind_ret h]

/-- The loop is right when there are rows, and everything arrives. -/
theorem visits_of_rows (hcols : 0 < columns) (hrows : ∀ fs ∈ rows, fs.length = columns ∧ ∀ x ∈ fs, NulFree x)
    (hne : rows ≠ []) (h : s.Copying b columns (rows.map CopyOutput.row) (copyAnswer total true))
    (hdelivers : W.DeliversRows rows.length s.conn.pg.clock) (d : RowData) : Visits W b ⟨s, d⟩ columns rows := by
  obtain ⟨fs, rows, rfl⟩ := List.exists_cons_of_ne_nil hne
  obtain ⟨hlength, hfs⟩ := hrows fs List.mem_cons_self
  obtain ⟨hready, hdelivers⟩ := World.deliversRows_succ.1 hdelivers
  obtain ⟨r₁, hr₁, hcopying, hcolumns, hpresents, hclock⟩ := getRow_row (r := ⟨s, d⟩) hready h hcols hlength hfs
  obtain ⟨views, hviews, hloop⟩ := rangeForLoop_rows hcols rows (fun x hx => hrows x (List.mem_cons_of_mem fs hx)) r₁
    hcopying (hclock ▸ hdelivers)
  refine ⟨_ :: views, .cons hpresents hviews, fun τ body t => ?_⟩
  have hpending : Connection.rowsPending s.conn = rows.length + 1 := by
    simp [Connection.rowsPending, h.conn.stream]
  obtain ⟨r', hr'⟩ := hloop τ body t (Connection.rowsPending s.conn + 2) (by omega)
  refine ⟨r', ?_⟩
  rw [rangeFor_eq (begin_ret hr₁), hcolumns, hr']

/-- When the loop visits what it should, a body that does nothing brings it to its end. -/
private theorem rangeForLoop_of_visits {r : Reading DB} (h : Visits W b r columns rows) : ∃ fuel more r₁ r',
    getRow W b r = .ret more r₁ ∧
      rangeForLoop W b (fun _ (_ : Unit) => .ok ()) fuel ⟨0, r₁.row.columns⟩ () r₁ = .ret () r' := by
  obtain ⟨views, _, hloop⟩ := h
  obtain ⟨r', hr'⟩ := hloop Unit (fun _ _ => .ok ()) ()
  have hbody : views.foldlM (fun (t : Unit) (_ : View) => (.ok () : Except Exn Unit)) () = .ok () :=
    List.foldlM_pure
  rw [hbody] at hr'
  cases hbegin : begin W b r with
  | ret it r₁ =>
    obtain ⟨more, hr₁⟩ := getRow_of_begin hbegin
    obtain ⟨rfl, -⟩ := Outcome.ret.inj (hbegin.symm.trans (begin_ret hr₁))
    exact ⟨_, more, r₁, r', hr₁, (rangeFor_eq hbegin).symm.trans hr'⟩
  | throw e r₁ =>
    rw [rangeFor, bind_ret (rfl : Exec.get r = .ret r r), bind_throw hbegin] at hr'
    cases hr'
  | undefined =>
    rw [rangeFor, bind_ret (rfl : Exec.get r = .ret r r), bind_undefined hbegin] at hr'
    cases hr'

/-- Without rows, the body is run for the row that is not there, and then the null pointer is followed. -/
private theorem not_visits_empty (hcols : 0 < columns) (h : s.Copying b columns [] (copyAnswer total completes))
    (d : RowData) : ¬ Visits W b ⟨s, d⟩ columns [] := by
  intro hvisits
  obtain ⟨fuel, more, r₁, r', hr₁, hret⟩ := rangeForLoop_of_visits hvisits
  obtain ⟨-, hk, hrow, -⟩ := wp_ret (wp_getRow_end (r := ⟨s, d⟩) h) hr₁
  have hopen : equal ⟨0, r₁.row.columns⟩ last = false := by rw [hrow, not_last hcols]
  obtain ⟨_, _, _, hr₂, -⟩ := getRow_of_rangeForLoop hopen rfl hret
  rw [getRow_released hk] at hr₂
  cases hr₂

/-- The loop does not visit what does not arrive. -/
private theorem delivers_of_visits (hcols : 0 < columns)
    (hrows : ∀ fs ∈ rows, fs.length = columns ∧ ∀ x ∈ fs, NulFree x) (hne : rows ≠ [])
    (h : s.Copying b columns (rows.map CopyOutput.row) (copyAnswer total completes)) {d : RowData}
    (hvisits : Visits W b ⟨s, d⟩ columns rows) : completes = true ∧ W.DeliversRows rows.length s.conn.pg.clock := by
  obtain ⟨fs, rows, rfl⟩ := List.exists_cons_of_ne_nil hne
  obtain ⟨hlength, hfs⟩ := hrows fs List.mem_cons_self
  obtain ⟨fuel, more, r₁, r', hr₁, hret⟩ := rangeForLoop_of_visits hvisits
  obtain ⟨rfl, hcopying, hcolumns, -, hready, hclock⟩ :=
    wp_ret (wp_getRow_row (r := ⟨s, d⟩) h hcols hlength hfs) hr₁
  rw [hcolumns] at hret
  obtain ⟨hcompletes, hdelivers⟩ :=
    delivers_of_rangeForLoop hcols rows (fun x hx => hrows x (List.mem_cons_of_mem fs hx)) hcopying hret
  exact ⟨hcompletes, World.deliversRows_succ.2 ⟨hready, hclock ▸ hdelivers⟩⟩

/-- What the body is given for a table without rows: columns, and no entries. -/
private theorem rangeFor_empty (hcols : 0 < columns) (h : s.Copying b columns [] (copyAnswer total true))
    (hdelivers : W.DeliversRows 0 s.conn.pg.clock) (d : RowData) {τ : Type} (body : View → τ → Except Exn τ)
    {t : τ} {e : Exn} (hbody : body ⟨⟨0, columns⟩, ⟨none, [], columns⟩⟩ t = .error e) :
    ∃ r₁, rangeFor W b body t ⟨s, d⟩ = .throw e r₁ := by
  obtain ⟨r₁, hr₁, _, hrow⟩ := getRow_end (r := ⟨s, d⟩) hdelivers h
  rw [← hrow] at hbody
  refine ⟨r₁, ?_⟩
  have hcolumns : r₁.row.columns = columns := by rw [hrow]
  rw [rangeFor_eq (begin_ret hr₁), hcolumns, rangeForLoop_error (not_last hcols) hbody]

private theorem beginsAtEnd_iff (hcols : 0 < columns) (hrows : ∀ fs ∈ rows, fs.length = columns ∧ ∀ x ∈ fs, NulFree x)
    (h : s.Copying b columns (rows.map CopyOutput.row) (copyAnswer total completes)) (d : RowData) :
    BeginsAtEnd W b ⟨s, d⟩ rows ↔ rows ≠ [] ∧ W.wait s.conn.pg.clock = .ready := by
  have hopen := not_last hcols
  cases rows with
  | nil =>
    refine ⟨?_, fun hn => absurd rfl hn.1⟩
    rintro ⟨it, r₁, hbegin, hiff⟩
    obtain ⟨more, hr₁⟩ := getRow_of_begin hbegin
    obtain ⟨rfl, -⟩ := Outcome.ret.inj (hbegin.symm.trans (begin_ret hr₁))
    obtain ⟨-, -, hrow, -⟩ := wp_ret (wp_getRow_end (r := ⟨s, d⟩) h) hr₁
    rw [hrow, hopen] at hiff
    exact absurd (hiff.2 rfl) Bool.false_ne_true
  | cons fs rows =>
    obtain ⟨hlength, hfs⟩ := hrows fs List.mem_cons_self
    constructor
    · rintro ⟨it, r₁, hbegin, -⟩
      obtain ⟨more, hr₁⟩ := getRow_of_begin hbegin
      obtain ⟨-, -, -, -, hready, -⟩ := wp_ret (wp_getRow_row (r := ⟨s, d⟩) h hcols hlength hfs) hr₁
      exact ⟨List.cons_ne_nil fs rows, hready⟩
    · rintro ⟨-, hready⟩
      obtain ⟨r₁, hr₁, -, hcolumns, -⟩ := getRow_row (r := ⟨s, d⟩) hready h hcols hlength hfs
      refine ⟨_, r₁, begin_ret hr₁, ?_⟩
      rw [hcolumns, hopen]
      exact ⟨fun hf => absurd hf Bool.false_ne_true, fun hn => absurd hn (List.cons_ne_nil fs rows)⟩

/-- Several calls return if the first one does, and the others do after it. -/
private theorem getRows_succ_inv {r r' : Reading DB} {m : Nat} {results : List Bool}
    (h : getRows W b (m + 1) r = .ret results r') : ∃ more r₁ rest, getRow W b r = .ret more r₁ ∧
      getRows W b m r₁ = .ret rest r' ∧ results = more :: rest := by
  rw [getRows] at h
  cases hrow : getRow W b r with
  | ret more r₁ =>
    rw [bind_ret hrow] at h
    cases hnext : getRows W b m r₁ with
    | ret rest r₂ =>
      rw [bind_ret hnext] at h
      obtain ⟨rfl, rfl⟩ := Outcome.ret.inj h
      exact ⟨more, r₁, rest, rfl, hnext, rfl⟩
    | throw e r₂ => rw [bind_throw hnext] at h; cases h
    | undefined => rw [bind_undefined hnext] at h; cases h
  | throw e r₁ => rw [bind_throw hrow] at h; cases h
  | undefined => rw [bind_undefined hrow] at h; cases h

private theorem counts_succ {r r₁ : Reading DB} {fs : List (Option Bytes)} {m : Nat}
    (h : getRow W b r = .ret true r₁) : Counts W b r (fs :: rows) (m + 1) ↔ Counts W b r₁ rows m := by
  have hrest : (fun k => decide (k < (fs :: rows).length)) ∘ Nat.succ = fun k => decide (k < rows.length) := by
    funext k
    simp
  rw [Counts, Counts, List.range_succ_eq_map, List.map_cons, List.map_map, hrest]
  constructor
  · rintro ⟨r', hr'⟩
    obtain ⟨more, r₂, rest, hr₂, hnext, hresults⟩ := getRows_succ_inv hr'
    obtain ⟨-, rfl⟩ := Outcome.ret.inj (h.symm.trans hr₂)
    exact ⟨r', by rw [hnext, (List.cons.inj hresults).2]⟩
  · rintro ⟨r', hr'⟩
    refine ⟨r', ?_⟩
    rw [getRows, bind_ret h, bind_ret hr']
    rfl

private theorem not_counts {r : Reading DB} {m : Nat} (h : ∀ more r₁, getRow W b r ≠ .ret more r₁) :
    ¬ Counts W b r rows (m + 1) := by
  rintro ⟨r', hr'⟩
  obtain ⟨more, r₁, -, hr₁, -⟩ := getRows_succ_inv hr'
  exact h more r₁ hr₁

private theorem counts_iff (hcols : 0 < columns) (hrows : ∀ fs ∈ rows, fs.length = columns ∧ ∀ x ∈ fs, NulFree x)
    (r : Reading DB) (h : r.state.Copying b columns (rows.map CopyOutput.row) (copyAnswer total completes)) (m : Nat) :
    Counts W b r rows m ↔ m ≤ rows.length ∧ W.Awaits m r.state.conn.pg.clock ∨
      m = rows.length + 1 ∧ completes = true ∧ W.DeliversRows rows.length r.state.conn.pg.clock := by
  induction rows generalizing r m with
  | nil =>
    obtain _ | _ | m := m
    · exact ⟨fun _ => .inl ⟨le_rfl, fun _ hk => absurd hk (Nat.not_lt_zero _)⟩, fun _ => ⟨r, rfl⟩⟩
    · -- the call at the end of the data
      rcases ret_or_throw (wp_getRow_end (W := W) h) with ⟨more, r₁, hr₁, rfl, -, -, hd⟩ | ⟨e, r₁, hr₁, hd⟩
      · have hcounts : Counts W b r [] 1 := ⟨r₁, by rw [getRows, bind_ret hr₁]; rfl⟩
        exact ⟨fun _ => .inr ⟨rfl, hd⟩, fun _ => hcounts⟩
      · have hnot : ¬ Counts W b r [] 1 := not_counts fun more r₂ hr₂ => by simp [hr₁] at hr₂
        simp [hnot, hd]
    · -- a further one
      have hnot : ¬ Counts W b r [] (m + 2) := by
        rintro ⟨r', hr'⟩
        obtain ⟨more, r₁, rest, hr₁, hnext, -⟩ := getRows_succ_inv hr'
        obtain ⟨-, hk, -⟩ := wp_ret (wp_getRow_end h) hr₁
        obtain ⟨_, _, _, hr₂, -⟩ := getRows_succ_inv hnext
        rw [getRow_released hk] at hr₂
        cases hr₂
      simp [hnot]
  | cons fs rows ih =>
    obtain ⟨hlength, hfs⟩ := hrows fs List.mem_cons_self
    cases m with
    | zero => exact ⟨fun _ => .inl ⟨Nat.zero_le _, fun _ hk => absurd hk (Nat.not_lt_zero _)⟩, fun _ => ⟨r, rfl⟩⟩
    | succ m =>
      rcases ret_or_throw (wp_getRow_row (W := W) h hcols hlength hfs) with
        ⟨more, r₁, hr₁, rfl, hcopying, -, -, hready, hclock⟩ | ⟨e, r₁, hr₁, hlate⟩
      · have hrest := ih (fun x hx => hrows x (List.mem_cons_of_mem fs hx)) r₁ hcopying m
        rw [counts_succ hr₁, hrest, hclock, List.length_cons, World.awaits_succ, World.deliversRows_succ]
        simp only [hready, true_and, Nat.add_le_add_iff_right, Nat.add_right_cancel_iff]
      · have hnot : ¬ Counts W b r (fs :: rows) (m + 1) := not_counts fun more r₂ hr₂ => by simp [hr₁] at hr₂
        simp [hnot, hlate, World.awaits_succ, World.deliversRows_succ]

/-- A table reader for a COPY TO: the `for` loop is right exactly when there are rows, the COPY is completed, and all of
it arrives; `begin() == end()` when there are rows, and the first one arrives; and the results of `get_row` up to the
first call that returns `false`, as far as what they ask for arrives. -/
theorem iteration_iff {s₀ : State DB} {o g : Addr} {u : Statement DB} (hs₀ : Reachable W s₀)
    (hl : (Call.tableReader o g b u).Legal s₀) (hu : u.body = .copyTo columns (rows.map CopyOutput.row) completes)
    (hctor : tableReader W o g b u s₀ = .ret () s) (hcols : 0 < columns)
    (hrows : ∀ fs ∈ rows, fs.length = columns ∧ ∀ x ∈ fs, NulFree x) (d : RowData) :
    (Visits W b ⟨s, d⟩ columns rows ↔
      rows ≠ [] ∧ completes = true ∧ W.DeliversRows rows.length s.conn.pg.clock) ∧
    (BeginsAtEnd W b ⟨s, d⟩ rows ↔ rows ≠ [] ∧ W.wait s.conn.pg.clock = .ready) ∧
    ∀ m, Counts W b ⟨s, d⟩ rows m ↔ m ≤ rows.length ∧ W.Awaits m s.conn.pg.clock ∨
      m = rows.length + 1 ∧ completes = true ∧ W.DeliversRows rows.length s.conn.pg.clock := by
  have h := copying_of_tableReader hs₀ hl hu hctor
  refine ⟨⟨fun hvisits => ?_, ?_⟩, beginsAtEnd_iff hcols hrows h d, counts_iff hcols hrows _ h⟩
  · have hne : rows ≠ [] := by
      rintro rfl
      exact not_visits_empty hcols h d hvisits
    exact ⟨hne, delivers_of_visits hcols hrows hne h hvisits⟩
  · rintro ⟨hne, rfl, hdelivers⟩
    exact visits_of_rows hcols hrows hne h hdelivers d

theorem iteration_iff_two_rows :
    ∃ s : State Unit,
      tableReader .calm 0 1 0
        ⟨"COPY t TO STDOUT",
          .copyTo 2 ([[some (ascii "a"), none], [some [], some (ascii "b")]].map CopyOutput.row) true⟩
        (State.directOnly () 0) = .ret () s ∧
      (Visits .calm 0 ⟨s, ⟨none, [], 0⟩⟩ 2 [[some (ascii "a"), none], [some [], some (ascii "b")]] ↔
        ([[some (ascii "a"), none], [some [], some (ascii "b")]] : List (List (Option Bytes))) ≠ [] ∧ true = true ∧
          World.calm.DeliversRows 2 s.conn.pg.clock) ∧
      (BeginsAtEnd .calm 0 ⟨s, ⟨none, [], 0⟩⟩ [[some (ascii "a"), none], [some [], some (ascii "b")]] ↔
        ([[some (ascii "a"), none], [some [], some (ascii "b")]] : List (List (Option Bytes))) ≠ [] ∧
          World.calm.wait s.conn.pg.clock = .ready) ∧
      ∀ m, Counts .calm 0 ⟨s, ⟨none, [], 0⟩⟩ [[some (ascii "a"), none], [some [], some (ascii "b")]] m ↔
        m ≤ 2 ∧ World.calm.Awaits m s.conn.pg.clock ∨
          m = 3 ∧ true = true ∧ World.calm.DeliversRows 2 s.conn.pg.clock :=
  ⟨_, rfl, iteration_iff (o := 0) (g := 1) (u := ⟨"COPY t TO STDOUT", _⟩) (.directOnly () 0 trivial) (by decide) rfl rfl
    (by decide) (by decide) _⟩

/-- A table without rows: the body of the loop is run nevertheless, for a row whose column has no entry. -/
theorem empty_table_visited :
    ∃ (s₀ s : State Unit) (r : Reading Unit), Reachable .calm s₀ ∧
      tableReader .calm 0 1 0 ⟨"COPY t TO STDOUT", .copyTo 1 [] true⟩ s₀ = .ret () s ∧
      rangeFor .calm 0 (fun v (_ : Unit) => if v.memory.data.length < v.row.columns then .error .user else .ok ()) ()
        ⟨s, ⟨none, [], 0⟩⟩ = .throw .user r ∧ ¬ Visits .calm 0 ⟨s, ⟨none, [], 0⟩⟩ 1 [] := by
  have hs₀ : Reachable .calm (State.directOnly () 0) := .directOnly () 0 trivial
  obtain ⟨s, hctor⟩ : ∃ s, tableReader .calm 0 1 0 ⟨"COPY t TO STDOUT", .copyTo 1 [] true⟩ (State.directOnly () 0) =
    .ret () s := ⟨_, rfl⟩
  have h := copying_of_tableReader hs₀ (by decide) rfl hctor
  obtain ⟨r, hr⟩ := rangeFor_empty (by decide) h (World.calm_reliable.deliversRows 0 _) ⟨none, [], 0⟩
    (fun v (_ : Unit) => if v.memory.data.length < v.row.columns then .error .user else .ok ()) rfl
  exact ⟨_, s, r, hs₀, hctor, hr, not_visits_empty (by decide) h _⟩

end Iteration

end TableReader

end TaoPQ
