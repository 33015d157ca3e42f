import TaoPQ.Rows
import TaoPQ.TableWriter

/-!
# Types of rows

A type with one column, together with how its values are passed, stored and read (`Codec`), and the types that
`std::optional`, `std::pair`, `std::tuple` and aggregates make of such types.  What is inserted as a value of such a
type, stored by the server in columns of the given types, and read from a result or from a table reader as the same
type, is the value again (`RowType.trip`), but for an optional that has a value all of whose columns are NULL: nothing
tells it from an empty one.
-/

namespace TaoPQ

open Byte

/-- A type with one column: how a value is passed, which is the text `text`, what the server prints for a text that it
has stored in a column, and how this is read.  A value that the type has comes back. -/
structure Codec (α : Type) where
  Has : α → Prop
  param : α → Param
  text : α → Bytes
  column : Bytes → Option Bytes
  result : LeafResult α
  fields_param : ∀ x, Has x → (param x).fields = [some (text x)]
  stored : ∀ x, Has x → ∃ s, column (text x) = some s ∧ nul ∉ s ∧ result.fromText s = .ok x

/-- A type of rows over types with one column. -/
inductive RowType (κ : Type) where
  | leaf (k : κ)
  | optional (t : RowType κ)
  | pair (first second : RowType κ)
  | tuple (first second : RowType κ) (rest : List (RowType κ))
  | aggregate (first : RowType κ) (rest : List (RowType κ))

/-- The server stores a row in columns, and reads it again. -/
def store {α κ : Type} (codec : κ → Codec α) : List κ → List (Option Bytes) → Option (List (Option Bytes))
  | [], [] => some []
  | _ :: ks, none :: xs => (store codec ks xs).map (none :: ·)
  | k :: ks, some s :: xs => do
    let t ← (codec k).column s
    let ys ← store codec ks xs
    return some t :: ys
  | _, _ => none

namespace RowType

variable {α κ : Type}

mutual

/-- The types of the columns. -/
def columns : RowType κ → List κ
  | leaf k => [k]
  | optional t => columns t
  | pair t u => columns t ++ columns u
  | tuple t u ts => columns t ++ (columns u ++ columnsOf ts)
  | aggregate t ts => columns t ++ columnsOf ts

def columnsOf : List (RowType κ) → List κ
  | [] => []
  | t :: ts => columns t ++ columnsOf ts

end

variable (codec : κ → Codec α)

mutual

/-- The type as one of results. -/
def result : RowType κ → ResultType α
  | leaf k => .leaf (codec k).result
  | optional t => .optional (result t)
  | pair t u => .pair (result t) (result u)
  | tuple t u ts => .tuple (result t) (result u) (results ts)
  | aggregate t ts => .aggregate (result t) (results ts)

def results : List (RowType κ) → List (ResultType α)
  | [] => []
  | t :: ts => result t :: results ts

end

mutual

/-- The values of the type. -/
def Has : RowType κ → ResultValue α → Prop
  | leaf k, .leaf x => (codec k).Has x
  | optional _, .nullopt => True
  | optional t, .engaged v => Has t v
  | pair t u, .pair v w => Has t v ∧ Has u w
  | tuple t u ts, .tuple (v :: w :: vs) => Has t v ∧ Has u w ∧ HasAll ts vs
  | aggregate t ts, .aggregate (v :: vs) => Has t v ∧ HasAll ts vs
  | _, _ => False

def HasAll : List (RowType κ) → List (ResultValue α) → Prop
  | [], [] => True
  | t :: ts, v :: vs => Has t v ∧ HasAll ts vs
  | _, _ => False

end

mutual

/-- How a value is passed. -/
def param : RowType κ → ResultValue α → Param
  | leaf k, .leaf x => (codec k).param x
  | optional t, .nullopt => .nullopt ((columns t).length - 1)
  | optional t, .engaged v => .optional (param t v)
  | pair t u, .pair v w => .pair (param t v) (param u w)
  | tuple t u ts, .tuple (v :: w :: vs) => .tuple (param t v) (param u w :: params ts vs)
  | aggregate t ts, .aggregate (v :: vs) => .tuple (param t v) (params ts vs)
  | _, _ => .null

def params : List (RowType κ) → List (ResultValue α) → List Param
  | t :: ts, v :: vs => param t v :: params ts vs
  | _, _ => []

end

end RowType

namespace ResultValue

variable {α : Type}

mutual

/-- All columns of the value are NULL. -/
def isNull : ResultValue α → Bool
  | leaf _ => false
  | nullopt => true
  | engaged v => isNull v
  | pair v w => isNull v && isNull w
  | tuple vs => areNull vs
  | aggregate vs => areNull vs

def areNull : List (ResultValue α) → Bool
  | [] => true
  | v :: vs => isNull v && areNull vs

end

mutual

/-- The value where an optional is empty if all its columns are NULL. -/
def collapse : ResultValue α → ResultValue α
  | leaf x => .leaf x
  | nullopt => .nullopt
  | engaged v => if isNull v then .nullopt else .engaged (collapse v)
  | pair v w => .pair (collapse v) (collapse w)
  | tuple vs => .tuple (collapseAll vs)
  | aggregate vs => .aggregate (collapseAll vs)

def collapseAll : List (ResultValue α) → List (ResultValue α)
  | [] => []
  | v :: vs => collapse v :: collapseAll vs

end

mutual

/-- No optional has a value all of whose columns are NULL. -/
def Solid : ResultValue α → Prop
  | leaf _ => True
  | nullopt => True
  | engaged v => isNull v = false ∧ Solid v
  | pair v w => Solid v ∧ Solid w
  | tuple vs => AllSolid vs
  | aggregate vs => AllSolid vs

def AllSolid : List (ResultValue α) → Prop
  | [] => True
  | v :: vs => Solid v ∧ AllSolid vs

end

mutual

/-- These are the values that do not change. -/
theorem collapse_eq_self_iff : (v : ResultValue α) → (collapse v = v ↔ Solid v)
  | leaf _ => by simp [collapse, Solid]
  | nullopt => by simp [collapse, Solid]
  | engaged v => by
    have ih := collapse_eq_self_iff v
    cases hv : isNull v with
    | true => simp [collapse, Solid, hv]
    | false => simp [collapse, Solid, hv, ih]
  | pair v w => by
    have hv := collapse_eq_self_iff v
    have hw := collapse_eq_self_iff w
    simp [collapse, Solid, hv, hw]
  | tuple vs => by
    have hvs := collapseAll_eq_self_iff vs
    simp [collapse, Solid, hvs]
  | aggregate vs => by
    have hvs := collapseAll_eq_self_iff vs
    simp [collapse, Solid, hvs]

theorem collapseAll_eq_self_iff : (vs : List (ResultValue α)) → (collapseAll vs = vs ↔ AllSolid vs)
  | [] => by simp [collapseAll, AllSolid]
  | v :: vs => by
    have hv := collapse_eq_self_iff v
    have hvs := collapseAll_eq_self_iff vs
    simp [collapseAll, AllSolid, hv, hvs]

end

end ResultValue

/-! ### Storing rows -/

section Store

variable {α κ : Type} {codec : κ → Codec α} {ks ks' : List κ} {xs xs' cells cells' : List (Option Bytes)}

theorem store_append (h : store codec ks xs = some cells) (h' : store codec ks' xs' = some cells') :
    store codec (ks ++ ks') (xs ++ xs') = some (cells ++ cells') := by
  induction ks generalizing xs cells with
  | nil =>
    cases xs with
    | nil =>
      obtain rfl := Option.some.inj h
      exact h'
    | cons x xs => cases h
  | cons k ks ih =>
    cases xs with
    | nil => cases h
    | cons x xs =>
      cases x with
      | none =>
        obtain ⟨ys, hys, rfl⟩ := Option.map_eq_some_iff.1 h
        exact Option.map_eq_some_iff.2 ⟨ys ++ cells', ih hys, rfl⟩
      | some s =>
        obtain ⟨t, ht, hrest⟩ := Option.bind_eq_some_iff.1 h
        obtain ⟨ys, hys, hcells⟩ := Option.bind_eq_some_iff.1 hrest
        obtain rfl := Option.some.inj hcells
        refine Option.bind_eq_some_iff.2 ⟨t, ht, ?_⟩
        exact Option.bind_eq_some_iff.2 ⟨ys ++ cells', ih hys, rfl⟩

theorem length_store (h : store codec ks xs = some cells) : cells.length = ks.length := by
  induction ks generalizing xs cells with
  | nil =>
    cases xs with
    | nil =>
      obtain rfl := Option.some.inj h
      rfl
    | cons x xs => cases h
  | cons k ks ih =>
    cases xs with
    | nil => cases h
    | cons x xs =>
      cases x with
      | none =>
        obtain ⟨ys, hys, rfl⟩ := Option.map_eq_some_iff.1 h
        exact congrArg (· + 1) (ih hys)
      | some s =>
        obtain ⟨t, -, hrest⟩ := Option.bind_eq_some_iff.1 h
        obtain ⟨ys, hys, hcells⟩ := Option.bind_eq_some_iff.1 hrest
        obtain rfl := Option.some.inj hcells
        exact congrArg (· + 1) (ih hys)

theorem store_nulls (ks : List κ) :
    store codec ks (List.replicate ks.length none) = some (List.replicate ks.length none) := by
  induction ks with
  | nil => rfl
  | cons k ks ih => exact Option.map_eq_some_iff.2 ⟨_, ih, rfl⟩

end Store

namespace RowType

variable {α κ : Type} {codec : κ → Codec α}

mutual

theorem size_result : (t : RowType κ) → (t.result codec).size = t.columns.length
  | leaf _ => rfl
  | optional t => size_result t
  | pair t u => by
    rw [result, columns, List.length_append, ← size_result t, ← size_result u]
    rfl
  | tuple t u ts => by
    rw [result, columns, List.length_append, List.length_append, ← size_result t, ← size_result u, ← sizes_results ts]
    rfl
  | aggregate t ts => by
    rw [result, columns, List.length_append, ← size_result t, ← sizes_results ts]
    rfl

theorem sizes_results : (ts : List (RowType κ)) → (ResultType.sizes (results codec ts)).sum = (columnsOf ts).length
  | [] => rfl
  | t :: ts => by
    rw [results, columnsOf, List.length_append, ← size_result t, ← sizes_results ts]
    rfl

end

theorem columns_pos (codec : κ → Codec α) (t : RowType κ) : 0 < t.columns.length := by
  have hsize : (t.result codec).size = t.columns.length := size_result t
  rw [← hsize]
  exact ResultType.size_pos _

/-! ### Values of a type -/

theorem has_leaf {k : κ} {v : ResultValue α} (h : (leaf k).Has codec v) : ∃ x, v = .leaf x ∧ (codec k).Has x := by
  cases v with
  | leaf x => exact ⟨x, rfl, h⟩
  | _ => exact h.elim

theorem has_optional {t : RowType κ} {v : ResultValue α} (h : (optional t).Has codec v) :
    v = .nullopt ∨ ∃ w, v = .engaged w ∧ t.Has codec w := by
  cases v with
  | nullopt => exact .inl rfl
  | engaged w => exact .inr ⟨w, rfl, h⟩
  | _ => exact h.elim

theorem has_pair {t u : RowType κ} {v : ResultValue α} (h : (pair t u).Has codec v) :
    ∃ w x, v = .pair w x ∧ t.Has codec w ∧ u.Has codec x := by
  cases v with
  | pair w x => exact ⟨w, x, rfl, h⟩
  | _ => exact h.elim

theorem has_tuple {t u : RowType κ} {ts : List (RowType κ)} {v : ResultValue α} (h : (tuple t u ts).Has codec v) :
    ∃ w x vs, v = .tuple (w :: x :: vs) ∧ t.Has codec w ∧ u.Has codec x ∧ HasAll codec ts vs := by
  cases v with
  | tuple vs =>
    obtain _ | ⟨w, _ | ⟨x, vs⟩⟩ := vs
    · exact h.elim
    · exact h.elim
    · exact ⟨w, x, vs, rfl, h⟩
  | _ => exact h.elim

theorem has_aggregate {t : RowType κ} {ts : List (RowType κ)} {v : ResultValue α} (h : (aggregate t ts).Has codec v) :
    ∃ w vs, v = .aggregate (w :: vs) ∧ t.Has codec w ∧ HasAll codec ts vs := by
  cases v with
  | aggregate vs =>
    obtain _ | ⟨w, vs⟩ := vs
    · exact h.elim
    · exact ⟨w, vs, rfl, h⟩
  | _ => exact h.elim

theorem hasAll_cons {t : RowType κ} {ts : List (RowType κ)} {vs : List (ResultValue α)}
    (h : HasAll codec (t :: ts) vs) :
    ∃ w ws, vs = w :: ws ∧ t.Has codec w ∧ HasAll codec ts ws := by
  cases vs with
  | nil => exact h.elim
  | cons w ws => exact ⟨w, ws, rfl, h⟩

/-! ### There and back -/

/-- The cells that are stored for some columns, and whether all of them are NULL. -/
structure Stored (codec : κ → Codec α) (ks : List κ) (fields cells : List (Option Bytes)) (isNull : Bool) : Prop where
  store : store codec ks fields = some cells
  nulFree : ∀ x ∈ cells, NulFree x
  null : (∀ x ∈ cells, x = none) ↔ isNull = true

theorem Stored.append {ks ks' : List κ} {fs fs' cells cells' : List (Option Bytes)} {n n' : Bool}
    (h : Stored codec ks fs cells n) (h' : Stored codec ks' fs' cells' n') :
    Stored codec (ks ++ ks') (fs ++ fs') (cells ++ cells') (n && n') := by
  refine ⟨store_append h.store h'.store, List.forall_mem_append.2 ⟨h.nulFree, h'.nulFree⟩, ?_⟩
  rw [List.forall_mem_append, h.null, h'.null, Bool.and_eq_true]

theorem Stored.length {ks : List κ} {fs cells : List (Option Bytes)} {n : Bool} (h : Stored codec ks fs cells n) :
    cells.length = ks.length := length_store h.store

mutual

/-- What is stored for a value, and what the type makes of it. -/
theorem trip : (t : RowType κ) → (v : ResultValue α) → t.Has codec v → ∃ cells,
    Stored codec t.columns (t.param codec v).fields cells v.isNull ∧ (t.result codec).value cells = some v.collapse
  | leaf k, v, h => by
    obtain ⟨x, rfl, hx⟩ := has_leaf h
    obtain ⟨s, hcolumn, hnul, hread⟩ := (codec k).stored x hx
    refine ⟨[some s], ⟨?_, ?_, ?_⟩, ?_⟩
    · rw [param, (codec k).fields_param x hx, columns]
      exact Option.bind_eq_some_iff.2 ⟨s, hcolumn, rfl⟩
    · simpa [NulFree] using hnul
    · simp [ResultValue.isNull]
    · simp [result, ResultType.value, LeafResult.convert, hread, Except.toOption, ResultValue.collapse]
  | optional t, v, h => by
    rcases has_optional h with rfl | ⟨w, rfl, hw⟩
    · have hpos : t.columns.length - 1 + 1 = t.columns.length := Nat.sub_add_cancel (columns_pos codec t)
      refine ⟨List.replicate t.columns.length none, ⟨?_, ?_, ?_⟩, ?_⟩
      · rw [param, Param.fields, hpos, columns]
        exact store_nulls _
      · intro x hx
        rw [List.eq_of_mem_replicate hx]
        exact fun s hs => by cases hs
      · exact iff_of_true (fun x hx => List.eq_of_mem_replicate hx) rfl
      · rw [result, ResultType.value]
        exact if_pos fun x hx => List.eq_of_mem_replicate hx
    · obtain ⟨cells, hcells, hvalue⟩ := trip t w hw
      refine ⟨cells, ?_, ?_⟩
      · rw [param, Param.fields, columns, ResultValue.isNull]
        exact hcells
      · rw [result, ResultType.value, ResultValue.collapse, hvalue]
        cases hnull : w.isNull with
        | true => exact if_pos (hcells.null.2 hnull)
        | false =>
          refine if_neg fun hall => ?_
          rw [hcells.null.1 hall] at hnull
          cases hnull
  | pair t u, v, h => by
    obtain ⟨w, x, rfl, hw, hx⟩ := has_pair h
    obtain ⟨cells, hcells, hvalue⟩ := trip t w hw
    obtain ⟨cells', hcells', hvalue'⟩ := trip u x hx
    refine ⟨cells ++ cells', ?_, ?_⟩
    · rw [param, Param.fields, columns, ResultValue.isNull]
      simpa using hcells.append hcells'
    · have hlength : cells.length = (t.result codec).size := hcells.length.trans (size_result t).symm
      have hlength' : cells'.length = (u.result codec).size := hcells'.length.trans (size_result u).symm
      rw [result, ResultType.value, ← hlength, ← hlength', List.take_left, List.drop_left, List.take_length, hvalue,
        hvalue']
      rfl
  | tuple t u ts, v, h => by
    obtain ⟨w, x, vs, rfl, hw, hx, hvs⟩ := has_tuple h
    obtain ⟨cells, hcells, hvalue⟩ := trip t w hw
    obtain ⟨cells', hcells', hvalue'⟩ := trip u x hx
    obtain ⟨cells'', hcells'', hvalue''⟩ := trips ts vs hvs
    refine ⟨cells ++ (cells' ++ cells''), ?_, ?_⟩
    · rw [param, Param.fields, columns, ResultValue.isNull]
      exact hcells.append (hcells'.append hcells'')
    · have hlength : cells.length = (t.result codec).size := hcells.length.trans (size_result t).symm
      have hlength' : cells'.length = (u.result codec).size := hcells'.length.trans (size_result u).symm
      rw [result, ResultType.value, ← hlength, ← hlength', List.take_left, List.drop_left, List.take_left,
        List.drop_left, hvalue, hvalue', hvalue'']
      rfl
  | aggregate t ts, v, h => by
    obtain ⟨w, vs, rfl, hw, hvs⟩ := has_aggregate h
    obtain ⟨cells, hcells, hvalue⟩ := trip t w hw
    obtain ⟨cells', hcells', hvalue'⟩ := trips ts vs hvs
    refine ⟨cells ++ cells', ?_, ?_⟩
    · rw [param, Param.fields, columns, ResultValue.isNull]
      exact hcells.append hcells'
    · have hlength : cells.length = (t.result codec).size := hcells.length.trans (size_result t).symm
      rw [result, ResultType.value, ← hlength, List.take_left, List.drop_left, hvalue, hvalue']
      rfl

theorem trips : (ts : List (RowType κ)) → (vs : List (ResultValue α)) → HasAll codec ts vs → ∃ cells,
    Stored codec (columnsOf ts) (Param.fieldsOf (params codec ts vs)).flatten cells (ResultValue.areNull vs) ∧
      ResultType.values (results codec ts) cells = some (ResultValue.collapseAll vs)
  | [], vs, h => by
    cases vs with
    | nil => exact ⟨[], ⟨rfl, by simp, by simp [ResultValue.areNull]⟩, rfl⟩
    | cons v vs => exact h.elim
  | t :: ts, vs, h => by
    obtain ⟨w, ws, rfl, hw, hws⟩ := hasAll_cons h
    obtain ⟨cells, hcells, hvalue⟩ := trip t w hw
    obtain ⟨cells', hcells', hvalue'⟩ := trips ts ws hws
    refine ⟨cells ++ cells', ?_, ?_⟩
    · rw [params, Param.fieldsOf, columnsOf, ResultValue.areNull, List.flatten_cons]
      exact hcells.append hcells'
    · have hlength : cells.length = (t.result codec).size := hcells.length.trans (size_result t).symm
      rw [results, ResultType.values, ← hlength, List.take_left, List.drop_left, hvalue, hvalue']
      rfl

end

end RowType

end TaoPQ
