import TaoPQ.Fields
import TaoPQ.Lib.Ordered

/-!
# Results as containers

`result::as_container` goes through the rows of a result from `begin` to `end` and puts the value of each one at the
end of a container (`result.hpp`, `result.cpp`).  Containers that are ordered put it where it belongs instead: a
`std::multimap` behind the values with its key, and a `std::map` only if its key is new.  So a `std::map` shows the
first row with a key, and a row that can not be read lets the whole call throw (`result_read_whole`).

`result::as` and `result::optional` read the only row.
-/

namespace TaoPQ

/-- A container that is made by calls of `insert( end(), x )`. -/
structure RowContainer (β γ : Type) where
  empty : γ
  insertEnd : γ → β → γ

namespace RowContainer

variable {β γ κ : Type}

/-- The container to which values were added one after the other. -/
def ofList (c : RowContainer β γ) (vs : List β) : γ := vs.foldl c.insertEnd c.empty

/-- `std::vector`, and `std::list` -/
def vector : RowContainer β (List β) := ⟨[], fun l x => l ++ [x]⟩

variable [LinearOrder κ] (key : β → κ)

/-- `std::multimap`, and, with the whole value as its key, `std::multiset`.  The hint `end()` asks for the last place
that is possible. -/
def multimap : RowContainer β (List β) := ⟨[], fun l x => Ordered.insertLast key x l⟩

/-- `std::map`, and, with the whole value as its key, `std::set` -/
def map : RowContainer β (List β) := ⟨[], fun l x => Ordered.insertNew key x l⟩

theorem ofList_vector (vs : List β) : vector.ofList vs = vs := by
  induction vs using List.reverseRecOn with
  | nil => rfl
  | append_singleton vs v ih =>
    rw [ofList, List.foldl_append]
    exact congrArg (· ++ [v]) ih

end RowContainer

/-- What `result::as` and `result::optional` throw. -/
inductive ResultError where
  /-- `std::runtime_error`: invalid empty result, expected 1 row -/
  | empty
  /-- `std::runtime_error`: invalid result size: {} rows, expected {} -/
  | size (rows : Nat) (expected : String)
  | read (e : ReadError)
  deriving DecidableEq

/-- The exceptions of a row pass through. -/
def Conversion.ofRow {β : Type} (x : Conversion β) : ExceptT ResultError Option β := ExceptT.adapt ResultError.read x

/-- `result::const_iterator::operator++` -/
def Row.nextRow (r : Row) : Row := { r with row := r.row + 1 }

/-- A conversion runs into undefined behaviour, throws, or returns a value. -/
theorem Conversion.cases {β : Type} (x : Conversion β) :
    x = none ∨ (∃ e, x = throw e) ∨ ∃ v, x = pure v := by
  rcases x with _ | _ | v
  · exact .inl rfl
  · exact .inr (.inl ⟨_, rfl⟩)
  · exact .inr (.inr ⟨v, rfl⟩)

theorem Conversion.ofRow_eq_pure {β : Type} {x : Conversion β} {v : β} : x.ofRow = pure v ↔ x = pure v := by
  rcases x with _ | _ | w
  · exact iff_of_false (fun h => by cases h) fun h => by cases h
  · exact iff_of_false (fun h => by cases h) fun h => by cases h
  · refine ⟨fun h => ?_, fun h => ?_⟩
    · cases h
      rfl
    · cases h
      rfl

namespace ResultSet

variable {α γ : Type}

/-- `result::begin` -/
def begin (res : ResultSet) : Row := .ofResult res 0

/-- `result::end` -/
def stop (res : ResultSet) : Row := .ofResult res res.rows.length

/-- `result::as_container`.  It asserts that there are columns. -/
def asContainer (res : ResultSet) (c : RowContainer (ResultValue α) γ) (t : ResultType α) : Conversion γ :=
  if res.columns = 0 then none
  else
    match iterate Row.row Row.nextRow res.stop (res.rows.length + 1) res.begin with
    | some rows => rows.foldlM (fun nrv row => do return c.insertEnd nrv (← row.as t)) c.empty
    | none => none

/-- `result::as`.  The size asserts that there are columns. -/
def as (res : ResultSet) (t : ResultType α) : ExceptT ResultError Option (ResultValue α) :=
  if res.columns = 0 then none
  else
    match res.rows.length with
    | 0 => throw .empty
    | 1 => ((Row.ofResult res 0).as t).ofRow
    | rows => throw (.size rows "1 row")

/-- `result::optional` -/
def optional (res : ResultSet) (t : ResultType α) : ExceptT ResultError Option (Option (ResultValue α)) :=
  if res.columns = 0 then none
  else
    match res.rows.length with
    | 0 => return none
    | 1 => do return some (← ((Row.ofResult res 0).as t).ofRow)
    | rows => throw (.size rows "0 or 1 rows")

/-- The values of all rows, in their order. -/
def Reads (res : ResultSet) (t : ResultType α) (vs : List (ResultValue α)) : Prop :=
  List.Forall₂ (fun i v => (Row.ofResult res i).as t = pure v) (List.range res.rows.length) vs

/-- The first row that can not be read is this one, with this exception. -/
def FailsAt (res : ResultSet) (t : ResultType α) (i : Nat) (e : ReadError) : Prop :=
  i < res.rows.length ∧ (∀ j < i, ∃ v, (Row.ofResult res j).as t = pure v) ∧ (Row.ofResult res i).as t = throw e

/-! ### The loop -/

/-- The rows from `begin` to `end`. -/
theorem iterate_rows (res : ResultSet) {n : Nat} (hn : res.rows.length < n) :
    iterate Row.row Row.nextRow res.stop n res.begin =
      some ((List.range res.rows.length).map (Row.ofResult res)) := by
  have hstop : Row.row res.stop = res.rows.length := rfl
  have h := iterate_eq Row.row Row.nextRow res.stop (Row.ofResult res) (fun _ => rfl) (fun _ => rfl) hstop
    (Nat.zero_le _) hn
  rwa [Nat.sub_zero, ← List.range_eq_range'] at h

theorem asContainer_eq {res : ResultSet} (hcols : res.columns ≠ 0) (c : RowContainer (ResultValue α) γ)
    (t : ResultType α) : res.asContainer c t = ((List.range res.rows.length).map (Row.ofResult res)).foldlM
      (fun nrv row => do return c.insertEnd nrv (← row.as t)) c.empty := by
  rw [asContainer, if_neg hcols, iterate_rows res (Nat.lt_succ_self _)]

section Loop

variable {ρ β : Type} {as : ρ → Conversion β} {rs : List ρ} {vs : List β} (insert : γ → β → γ)

/-- Rows that can be read are put in one after the other. -/
theorem foldlM_reads (h : List.Forall₂ (fun r v => as r = pure v) rs vs) (t : γ) :
    rs.foldlM (fun nrv r => do return insert nrv (← as r)) t = (pure (vs.foldl insert t) : Conversion γ) := by
  induction h generalizing t with
  | nil => rfl
  | cons hr _ ih => rw [List.foldlM_cons, hr, pure_bind, pure_bind, ih, List.foldl_cons]

/-- The loop returns only if all rows can be read. -/
theorem reads_of_foldlM {t x : γ}
    (h : rs.foldlM (fun nrv r => do return insert nrv (← as r)) t = (pure x : Conversion γ)) :
    ∃ vs, List.Forall₂ (fun r v => as r = pure v) rs vs ∧ x = vs.foldl insert t := by
  induction rs generalizing t with
  | nil => exact ⟨[], .nil, (Except.ok.inj (Option.some.inj h)).symm⟩
  | cons r rs ih =>
    rw [List.foldlM_cons] at h
    rcases (as r).cases with hr | ⟨e, hr⟩ | ⟨v, hr⟩
    · rw [hr] at h
      cases h
    · rw [hr] at h
      cases h
    · rw [hr, pure_bind, pure_bind] at h
      obtain ⟨vs, hvs, rfl⟩ := ih h
      exact ⟨v :: vs, .cons hr hvs, rfl⟩

/-- The first row that can not be read ends the loop. -/
theorem foldlM_throws {r : ρ} {e : ReadError} (h : List.Forall₂ (fun r v => as r = pure v) rs vs) (hr : as r = throw e)
    (rest : List ρ) (t : γ) :
    (rs ++ r :: rest).foldlM (fun nrv r => do return insert nrv (← as r)) t = (throw e : Conversion γ) := by
  rw [List.foldlM_append, foldlM_reads insert h, pure_bind, List.foldlM_cons, hr]
  rfl

end Loop

variable {res : ResultSet} {t : ResultType α}

theorem asContainer_eq_pure_iff (hcols : res.columns ≠ 0) {c : RowContainer (ResultValue α) γ} {x : γ} :
    res.asContainer c t = pure x ↔ ∃ vs, res.Reads t vs ∧ x = c.ofList vs := by
  rw [asContainer_eq hcols]
  refine ⟨fun h => ?_, ?_⟩
  · obtain ⟨vs, hvs, hx⟩ := reads_of_foldlM c.insertEnd h
    exact ⟨vs, List.forall₂_map_left_iff.1 hvs, hx⟩
  · rintro ⟨vs, hvs, rfl⟩
    exact foldlM_reads c.insertEnd (List.forall₂_map_left_iff.2 hvs) c.empty

/-- The rows before the first one that can not be read have values. -/
theorem FailsAt.reads_before {i : Nat} {e : ReadError} (h : res.FailsAt t i e) :
    ∃ vs, List.Forall₂ (fun r v => Row.as r t = pure v) ((List.range i).map (Row.ofResult res)) vs := by
  have hbefore := h.2.1
  clear h
  induction i with
  | zero => exact ⟨[], .nil⟩
  | succ i ih =>
    obtain ⟨vs, hvs⟩ := ih fun j hj => hbefore j (Nat.lt_succ_of_lt hj)
    obtain ⟨v, hv⟩ := hbefore i (Nat.lt_succ_self i)
    refine ⟨vs ++ [v], ?_⟩
    rw [List.range_succ, List.map_append]
    exact List.rel_append hvs (.cons hv .nil)

theorem FailsAt.asContainer {i : Nat} {e : ReadError} (h : res.FailsAt t i e) (hcols : res.columns ≠ 0)
    (c : RowContainer (ResultValue α) γ) : res.asContainer c t = throw e := by
  obtain ⟨vs, hvs⟩ := h.reads_before
  obtain ⟨n, hn⟩ : ∃ n, res.rows.length = i + (n + 1) := ⟨res.rows.length - i - 1, by have := h.1; omega⟩
  have hrows : (List.range res.rows.length).map (Row.ofResult res) =
      (List.range i).map (Row.ofResult res) ++
        Row.ofResult res i :: ((List.range n).map (fun k => Row.ofResult res (i + (k + 1)))) := by
    rw [hn, List.range_add, List.map_append, List.range_succ_eq_map]
    simp [Function.comp_def]
  rw [asContainer_eq hcols, hrows]
  exact foldlM_throws c.insertEnd hvs h.2.2 _ c.empty

/-- Rows of the right size can be read, or there is a first one that can not be. -/
theorem reads_or_failsAt (hread : t.readable = true) (hsize : t.size = res.columns) :
    (∃ vs, res.Reads t vs) ∨ ∃ i e, res.FailsAt t i e := by
  have hrow (i : Nat) (hi : i < res.rows.length) : (∃ v, (Row.ofResult res i).as t = pure v) ∨
      ∃ e, (Row.ofResult res i).as t = throw e := by
    rcases (Row.Valid.ofResult hi).as_cases hread hsize with ⟨v, hv, -⟩ | ⟨e, he, -⟩
    · exact .inl ⟨v, hv⟩
    · exact .inr ⟨e, he⟩
  suffices hbefore : ∀ n ≤ res.rows.length,
      (∃ vs, List.Forall₂ (fun i v => (Row.ofResult res i).as t = pure v) (List.range n) vs) ∨
        ∃ i e, res.FailsAt t i e from hbefore _ (le_refl _)
  intro n hn
  induction n with
  | zero => exact .inl ⟨[], .nil⟩
  | succ n ih =>
    rcases ih (Nat.le_of_succ_le hn) with ⟨vs, hvs⟩ | hfails
    · rcases hrow n hn with ⟨v, hv⟩ | ⟨e, he⟩
      · rw [List.range_succ]
        exact .inl ⟨vs ++ [v], List.rel_append hvs (.cons hv .nil)⟩
      · refine .inr ⟨n, e, hn, fun j hj => ?_, he⟩
        have hlt : j < vs.length := by
          rw [← hvs.length_eq, List.length_range]
          exact hj
        have hget := hvs.get (by simpa using hj) hlt
        exact ⟨vs[j], by simpa using hget⟩
    · exact .inr hfails

theorem vector_iff (hcols : res.columns ≠ 0) {vs : List (ResultValue α)} :
    res.asContainer .vector t = pure vs ↔ res.Reads t vs := by
  rw [asContainer_eq_pure_iff hcols]
  refine ⟨?_, fun h => ⟨vs, h, (RowContainer.ofList_vector vs).symm⟩⟩
  rintro ⟨ws, hws, rfl⟩
  rwa [RowContainer.ofList_vector]

theorem reads_nil_iff : res.Reads t [] ↔ res.rows.length = 0 := by
  unfold Reads
  rw [List.forall₂_nil_right_iff, List.range_eq_nil]

theorem reads_singleton_iff {v : ResultValue α} :
    res.Reads t [v] ↔ res.rows.length = 1 ∧ (Row.ofResult res 0).as t = pure v := by
  unfold Reads
  refine ⟨fun h => ?_, fun ⟨hlength, hv⟩ => ?_⟩
  · have hlength := h.length_eq
    rw [List.length_range, List.length_singleton] at hlength
    rw [hlength] at h
    exact ⟨hlength, (List.forall₂_cons.1 h).1⟩
  · rw [hlength]
    exact .cons hv .nil

/-- `as` reads the only row, as a vector with one element does. -/
theorem as_iff (hcols : res.columns ≠ 0) (v : ResultValue α) :
    res.as t = pure v ↔ res.asContainer .vector t = pure [v] := by
  rw [vector_iff hcols, reads_singleton_iff, as, if_neg hcols]
  rcases hrows : res.rows.length with _ | _ | n
  · exact iff_of_false (fun h => by cases h) (by simp)
  · exact Conversion.ofRow_eq_pure.trans (by simp)
  · exact iff_of_false (fun h => by cases h) (by simp)

/-- `optional` reads the only row, if there is one. -/
theorem optional_iff (hcols : res.columns ≠ 0) (o : Option (ResultValue α)) :
    res.optional t = pure o ↔ res.asContainer .vector t = pure o.toList := by
  rw [vector_iff hcols, optional, if_neg hcols]
  cases o with
  | none =>
    rw [Option.toList_none, reads_nil_iff]
    rcases hrows : res.rows.length with _ | _ | n
    · exact iff_of_true rfl rfl
    · refine iff_of_false (fun h => ?_) (by simp)
      rcases ((Row.ofResult res 0).as t).cases with hx | ⟨e, hx⟩ | ⟨v, hx⟩ <;> rw [hx] at h <;> cases h
    · exact iff_of_false (fun h => by cases h) (by simp)
  | some v =>
    rw [Option.toList_some, reads_singleton_iff]
    rcases hrows : res.rows.length with _ | _ | n
    · exact iff_of_false (fun h => by cases h) (by simp)
    · refine ⟨fun h => ⟨rfl, ?_⟩, fun ⟨_, h⟩ => ?_⟩
      · rcases ((Row.ofResult res 0).as t).cases with hx | ⟨e, hx⟩ | ⟨w, hx⟩ <;> rw [hx] at h <;> cases h
        exact hx
      · rw [h]
        rfl
    · exact iff_of_false (fun h => by cases h) (by simp)

/-- A result is read as a whole.  If all rows can be read, a vector has their values in their order, a multimap the
values with a key in their order, and a map the first value with a key; otherwise the exception of the first row that
can not be read is thrown.  `as` and `optional` read the vectors of one element, and of one at most. -/
theorem result_read_whole {κ : Type} [LinearOrder κ] (key : ResultValue α → κ) (hcols : res.columns ≠ 0) :
    (∀ vs, res.Reads t vs →
      res.asContainer .vector t = pure vs ∧
      (∃ l, res.asContainer (.multimap key) t = pure l ∧ Ordered.Sorted key l ∧
        ∀ k, l.filter (fun v => key v = k) = vs.filter (fun v => key v = k)) ∧
      ∃ l, res.asContainer (.map key) t = pure l ∧ Ordered.Increasing key l ∧
        ∀ k, l.filter (fun v => key v = k) = (vs.find? (fun v => key v = k)).toList) ∧
    (∀ i e, res.FailsAt t i e → ∀ (γ : Type) (c : RowContainer (ResultValue α) γ), res.asContainer c t = throw e) ∧
    (t.readable = true → t.size = res.columns → (∃ vs, res.Reads t vs) ∨ ∃ i e, res.FailsAt t i e) ∧
    (∀ v, res.as t = pure v ↔ res.asContainer .vector t = pure [v]) ∧
    ∀ o, res.optional t = pure o ↔ res.asContainer .vector t = pure o.toList := by
  refine ⟨fun vs hvs => ⟨(vector_iff hcols).2 hvs, ?_, ?_⟩, fun i e h _ c => h.asContainer hcols c, reads_or_failsAt,
    as_iff hcols, optional_iff hcols⟩
  · exact ⟨_, (asContainer_eq_pure_iff hcols).2 ⟨vs, hvs, rfl⟩, Ordered.sorted_collect key vs,
      Ordered.filter_collect key vs⟩
  · exact ⟨_, (asContainer_eq_pure_iff hcols).2 ⟨vs, hvs, rfl⟩, Ordered.increasing_collectNew key vs,
      Ordered.filter_collectNew key vs⟩

/-- Two rows have the key 2: the map shows the first one. -/
theorem result_read_whole_twice :
    let key : ResultValue Int → Int
      | .pair (.leaf k) _ => k
      | _ => 0
    let res : ResultSet := ⟨[[some (ascii "2"), some (ascii "10")], [some (ascii "1"), some (ascii "20")],
      [some (ascii "2"), some (ascii "30")]], 2, by decide⟩
    ∃ l, res.asContainer (.map key) (.pair (.leaf intResult) (.leaf intResult)) = pure l ∧ Ordered.Increasing key l ∧
      l.filter (fun v => key v = 2) = [.pair (.leaf 2) (.leaf 10)] := by
  intro key res
  have hreads : res.Reads (.pair (.leaf intResult) (.leaf intResult))
      [.pair (.leaf 2) (.leaf 10), .pair (.leaf 1) (.leaf 20), .pair (.leaf 2) (.leaf 30)] :=
    .cons rfl (.cons rfl (.cons rfl .nil))
  obtain ⟨-, -, l, hl, hincreasing, hfilter⟩ := (result_read_whole key (show res.columns ≠ 0 by decide)).1 _ hreads
  exact ⟨l, hl, hincreasing, hfilter 2⟩

end ResultSet

end TaoPQ
