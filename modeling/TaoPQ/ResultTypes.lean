import Mathlib.Data.List.GetD
import TaoPQ.Gen
import TaoPQ.Lib.Bytes

/-!
# Composite result types

The `result_traits` of `std::optional`, `std::pair`, `std::tuple` and aggregates over any types with one column, for
any class of rows.  A composite type reads its members from slices of the row, at the exclusive prefix sums of their
sizes; what comes of it is what the cells say from left to right (`get_settles`), for every class of rows that shows
cells (`RowClass.Lawful`).
-/

namespace TaoPQ

/-- What the `from` of a type with one column throws. -/
inductive LeafError where
  | outOfRange (what : Bytes)
  | invalidArgument (what : Bytes)
  | runtimeError (what : Bytes)
  deriving DecidableEq

/-- What `get` and `as` throw. -/
inductive ReadError where
  /-- `std::out_of_range`: datatype requires {} columns, but row/slice has {} columns -/
  | columns (required columns : Nat)
  /-- `std::out_of_range`: column {} out of range (0-{}) -/
  | column (column columns : Nat)
  /-- `std::out_of_range`: row {} out of range (0-{}) -/
  | row (row rows : Nat)
  /-- `std::out_of_range`: slice ({}-{}) out of range (0-{}) -/
  | slice (offset columns available : Nat)
  /-- `std::invalid_argument`: slice requires at least one column -/
  | emptySlice
  /-- Unexpected NULL value, a `std::runtime_error` from a result, and a `std::invalid_argument` from a table reader. -/
  | null
  | leaf (e : LeafError)
  deriving DecidableEq

/-- The exception is a `std::out_of_range`. -/
def ReadError.isOutOfRange : ReadError → Bool
  | columns _ _ => true
  | column _ _ => true
  | row _ _ => true
  | slice _ _ _ => true
  | emptySlice => false
  | null => false
  | leaf (.outOfRange _) => true
  | leaf _ => false

/-- The exception tells that a cell has no value of a type with one column. -/
def ReadError.isOfLeaf : ReadError → Bool
  | null => true
  | leaf _ => true
  | _ => false

/-- What comes of a conversion: a value or an exception, or neither where there is no function to call, or where it
runs into undefined behaviour. -/
abbrev Conversion := ExceptT ReadError Option

/-- The `result_traits` of a type with one column: `null`, where there is one, and `from`. -/
structure LeafResult (α : Type) where
  null : Option α
  fromText : Bytes → Except LeafError α

/-- `internal::from_chars`, for an integer type with values from `lo` to `hi`.  A minus sign is part of the number only
where the type is signed. -/
def fromChars (type : String) (lo hi : Int) (value : Bytes) : Except LeafError Int :=
  let what := ascii "tao::pq::internal::from_chars<" ++ ascii type ++ ascii ">(): " ++ value
  let negative : Bool := lo < 0 && value.head? == some 45
  let pattern := if negative then value.tail else value
  let digits := pattern.takeWhile fun b => 48 ≤ b && b ≤ 57
  let n : Int := digits.foldl (fun n b => 10 * n + (b.toNat - 48)) 0
  let result := if negative then -n else n
  if digits = [] then .error (.invalidArgument what)
  else if result < lo ∨ hi < result then .error (.outOfRange what)
  else if digits.length = pattern.length then .ok result
  else .error (.invalidArgument what)

/-- `result_traits< int >` -/
def intResult : LeafResult Int := ⟨none, fromChars "int" (-2147483648) 2147483647⟩

/-- A type of results.  A tuple has at least two members, and an aggregate at least one. -/
inductive ResultType (α : Type) where
  | leaf (t : LeafResult α)
  | optional (t : ResultType α)
  | pair (first second : ResultType α)
  | tuple (first second : ResultType α) (rest : List (ResultType α))
  | aggregate (first : ResultType α) (rest : List (ResultType α))

/-- A value of such a type. -/
inductive ResultValue (α : Type) where
  | leaf (x : α)
  | nullopt
  | engaged (v : ResultValue α)
  | pair (first second : ResultValue α)
  | tuple (members : List (ResultValue α))
  | aggregate (members : List (ResultValue α))

namespace ResultType

variable {α ρ : Type}

mutual

/-- `result_traits_size` -/
def size : ResultType α → Nat
  | leaf _ => 1
  | optional t => size t
  | pair t u => size t + size u
  | tuple t u ts => size t + (size u + (sizes ts).sum)
  | aggregate t ts => size t + (sizes ts).sum

/-- `result_traits_size< Ts >...` -/
def sizes : List (ResultType α) → List Nat
  | [] => []
  | t :: ts => size t :: sizes ts

end

/-- `is_aggregate_result` -/
def isAggregate : ResultType α → Bool
  | aggregate _ _ => true
  | _ => false

/-- `result_type_direct` -/
def isDirect (t : ResultType α) : Bool := t.size == 1 && !t.isAggregate

/-- `result_traits::null`, where there is one. -/
def null : ResultType α → Option (ResultValue α)
  | leaf t => t.null.map .leaf
  | optional _ => some .nullopt
  | pair _ _ => none
  | tuple _ _ _ => none
  | aggregate _ _ => none

/-- `result_traits::from( const char* )`, where there is one. -/
def fromText : ResultType α → Bytes → Conversion (ResultValue α)
  | leaf t, value =>
    match t.fromText value with
    | .ok x => return .leaf x
    | .error e => throw (.leaf e)
  | optional t, value => do
    let v ← fromText t value
    return .engaged v
  | pair _ _, _ => none
  | tuple _ _ _, _ => none
  | aggregate _ _, _ => none

end ResultType

/-- What the traits use of a class of rows.  The `get` of a direct type gets its `null`, if there is one, and its
`from`. -/
structure RowClass (ρ α : Type) where
  columns : ρ → Nat
  slice : ρ → Nat → Nat → Conversion ρ
  isNull : ρ → Nat → Conversion Bool
  getDirect : Option (ResultValue α) → (Bytes → Conversion (ResultValue α)) → ρ → Nat → Conversion (ResultValue α)

namespace ResultType

variable {α ρ : Type} (R : RowClass ρ α)

/-- `get< T >`, for the `from` of a composite type. -/
def getBy (t : ResultType α) (composite : ρ → Conversion (ResultValue α)) (r : ρ) (column : Nat) :
    Conversion (ResultValue α) :=
  if t.isDirect then R.getDirect t.null t.fromText r column
  else do
    let s ← R.slice r column t.size
    composite s

/-- The loop of `result_traits< std::optional< T > >::from`. -/
def optionalLoop (r : ρ) (found : Conversion (ResultValue α)) : List Nat → Conversion (ResultValue α)
  | [] => return .nullopt
  | column :: rest => do
    let isNull ← R.isNull r column
    if !isNull then do
      let v ← found
      return .engaged v
    else optionalLoop r found rest

mutual

/-- `result_traits::from( const Row& )`, where there is one.  The order in which the members of a pair or of a tuple
are evaluated is not specified. -/
def fromRow : ResultType α → ρ → Conversion (ResultValue α)
  | leaf _, _ => none
  | optional t, r => optionalLoop R r (fromRow t r) (List.range (R.columns r))
  | pair t u, r => do
    let v ← getBy R t (fun r => fromRow t r) r 0
    let w ← getBy R u (fun r => fromRow u r) r t.size
    return .pair v w
  | tuple t u ts, r => do
    let scan := exclusiveScan (size t :: size u :: sizes ts)
    let v ← getBy R t (fun r => fromRow t r) r (scan.getD 0 0)
    let w ← getBy R u (fun r => fromRow u r) r (scan.getD 1 0)
    let vs ← fromMembers ts r (scan.drop 2)
    return .tuple (v :: w :: vs)
  | aggregate t ts, r => do
    let scan := exclusiveScan (size t :: sizes ts)
    let v ← getBy R t (fun r => fromRow t r) r (scan.getD 0 0)
    let vs ← fromMembers ts r (scan.drop 1)
    return .aggregate (v :: vs)

/-- `row.template get< Ts >( Ns )...` -/
def fromMembers : List (ResultType α) → ρ → List Nat → Conversion (List (ResultValue α))
  | [], _, _ => return []
  | t :: ts, r, scan => do
    let v ← getBy R t (fun r => fromRow t r) r (scan.getD 0 0)
    let vs ← fromMembers ts r (scan.drop 1)
    return v :: vs

end

/-- `get< T >` -/
def get (t : ResultType α) (r : ρ) (column : Nat) : Conversion (ResultValue α) := getBy R t (fromRow R t) r column

/-- `as< T >` -/
def as (t : ResultType α) (r : ρ) : Conversion (ResultValue α) :=
  if t.size ≠ R.columns r then throw (.columns t.size (R.columns r)) else get R t r 0

end ResultType

/-! ### What the cells say -/

/-- What a type with one column makes of a cell. -/
def LeafResult.convert {α : Type} (t : LeafResult α) : Option Bytes → Option α
  | some text => (t.fromText text).toOption
  | none => t.null

namespace ResultType

variable {α ρ : Type}

mutual

/-- The value that cells stand for, if all conversions that are made succeed.  An optional is empty if all its cells
are NULL, and a composite type reads its members from left to right. -/
def value : ResultType α → List (Option Bytes) → Option (ResultValue α)
  | leaf t, cells => (t.convert (cells.getD 0 none)).map .leaf
  | optional t, cells => if ∀ x ∈ cells, x = none then some .nullopt else (value t cells).map .engaged
  | pair t u, cells => do
    let v ← value t (cells.take t.size)
    let w ← value u ((cells.drop t.size).take u.size)
    return .pair v w
  | tuple t u ts, cells => do
    let v ← value t (cells.take t.size)
    let w ← value u ((cells.drop t.size).take u.size)
    let vs ← values ts ((cells.drop t.size).drop u.size)
    return .tuple (v :: w :: vs)
  | aggregate t ts, cells => do
    let v ← value t (cells.take t.size)
    let vs ← values ts (cells.drop t.size)
    return .aggregate (v :: vs)

def values : List (ResultType α) → List (Option Bytes) → Option (List (ResultValue α))
  | [], _ => some []
  | t :: ts, cells => do
    let v ← value t (cells.take t.size)
    let vs ← values ts (cells.drop t.size)
    return v :: vs

end

mutual

/-- No optional is over an aggregate with one column, for which there is no `from( const char* )`. -/
def readable : ResultType α → Bool
  | leaf _ => true
  | optional t => readable t && (t.size != 1 || t.isDirect)
  | pair t u => readable t && readable u
  | tuple t u ts => readable t && readable u && allReadable ts
  | aggregate t ts => readable t && allReadable ts

def allReadable : List (ResultType α) → Bool
  | [] => true
  | t :: ts => readable t && allReadable ts

end

end ResultType

/-- A conversion returns this value, or tells of a cell that has none. -/
inductive Conversion.Settles {β : Type} : Conversion β → Option β → Prop where
  | value (v : β) : Settles (pure v) (some v)
  | throws (e : ReadError) : e.isOfLeaf = true → Settles (throw e) none

open Conversion (Settles)

theorem Conversion.Settles.bind {β γ : Type} {x : Conversion β} {a : Option β} {f : β → Conversion γ} {g : β → Option γ}
    (h : Settles x a) (hf : ∀ v, Settles (f v) (g v)) : Settles (x >>= f) (a >>= g) := by
  cases h with
  | value v => exact hf v
  | throws e he => exact .throws e he

theorem Conversion.Settles.map {β γ : Type} {x : Conversion β} {a : Option β} (h : Settles x a) (f : β → γ) :
    Settles (x >>= fun v => pure (f v)) (a.map f) := by
  cases h with
  | value v => exact .value (f v)
  | throws e he => exact .throws e he

theorem Conversion.Settles.eq_pure {β : Type} {x : Conversion β} {v : β} (h : Settles x (some v)) : x = pure v := by
  cases h
  rfl

theorem Conversion.Settles.eq_throw {β : Type} {x : Conversion β} (h : Settles x none) :
    ∃ e, x = throw e ∧ e.isOfLeaf = true := by
  cases h with
  | throws e he => exact ⟨e, rfl, he⟩

/-- Rows show cells, and slices of rows show slices of the cells. -/
structure RowClass.Lawful {ρ α : Type} (R : RowClass ρ α) (Shows : ρ → List (Option Bytes) → Prop) : Prop where
  columns {r : ρ} {cells : List (Option Bytes)} : Shows r cells → R.columns r = cells.length
  slice {r : ρ} {cells : List (Option Bytes)} {offset n : Nat} : Shows r cells → 0 < n → offset + n ≤ cells.length →
    ∃ s, R.slice r offset n = pure s ∧ Shows s ((cells.drop offset).take n)
  isNull {r : ρ} {cells : List (Option Bytes)} {column : Nat} : Shows r cells → column < cells.length →
    R.isNull r column = pure (cells.getD column none).isNone
  getDirect {r : ρ} {cells : List (Option Bytes)} {column : Nat} {null : Option (ResultValue α)}
    {fromText : Bytes → Conversion (ResultValue α)} : Shows r cells → column < cells.length →
    R.getDirect null fromText r column =
      match cells.getD column none with
      | some text => fromText text
      | none => null.elim (throw .null) pure

namespace ResultType

variable {α ρ : Type}

mutual

theorem size_pos : (t : ResultType α) → 0 < t.size
  | leaf _ => Nat.one_pos
  | optional t => size_pos t
  | pair t _ => Nat.add_pos_left (size_pos t) _
  | tuple t _ _ => Nat.add_pos_left (size_pos t) _
  | aggregate t _ => Nat.add_pos_left (size_pos t) _

end

/-- The `from( const char* )` of a direct type, or its `null`. -/
private theorem direct_settles : (t : ResultType α) → t.isDirect = true → t.readable = true → (x : Option Bytes) →
    Settles (match x with
      | some text => t.fromText text
      | none => t.null.elim (throw .null) pure) (t.value [x])
  | leaf t, _, _, some text => by
    simp only [fromText, value, LeafResult.convert, List.getD_cons_zero]
    cases t.fromText text with
    | ok x => exact .value _
    | error e => exact .throws _ rfl
  | leaf t, _, _, none => by
    simp only [null, value, LeafResult.convert, List.getD_cons_zero]
    cases t.null with
    | some x => exact .value _
    | none => exact .throws _ rfl
  | optional t, hdirect, hread, some text => by
    have hsize : t.size = 1 := by simpa [isDirect, size, isAggregate] using hdirect
    obtain ⟨hread, ht⟩ : t.readable = true ∧ t.isDirect = true := by simpa [readable, hsize] using hread
    have h := direct_settles t ht hread (some text)
    rw [value, if_neg (by simp)]
    exact h.map ResultValue.engaged
  | optional t, _, _, none => by
    simpa [value, null] using Settles.value ResultValue.nullopt
  | pair t u, hdirect, _, _ => by
    have ht := size_pos t
    have hu := size_pos u
    simp [isDirect, size, isAggregate] at hdirect
    omega
  | tuple t u ts, hdirect, _, _ => by
    have ht := size_pos t
    have hu := size_pos u
    simp [isDirect, size, isAggregate] at hdirect
    omega
  | aggregate t ts, hdirect, _, _ => by simp [isDirect, isAggregate] at hdirect

section

variable {R : RowClass ρ α} {Shows : ρ → List (Option Bytes) → Prop}

/-- `get`, where the type reads slices of its size. -/
private theorem getBy_settles (hR : R.Lawful Shows) {t : ResultType α} (hread : t.readable = true)
    {composite : ρ → Conversion (ResultValue α)}
    (h : ∀ s cells, Shows s cells → cells.length = t.size → t.isDirect = false →
      Settles (composite s) (t.value cells))
    {r : ρ} {cells : List (Option Bytes)} (hr : Shows r cells) (column : Nat)
    (hcolumn : column + t.size ≤ cells.length) :
    Settles (getBy R t composite r column) (t.value ((cells.drop column).take t.size)) := by
  have hpos := t.size_pos
  unfold getBy
  split
  · rename_i hdirect
    have hsize : t.size = 1 := by
      have hboth := Bool.and_eq_true_iff.1 hdirect
      exact beq_iff_eq.1 hboth.1
    have hcell : (cells.drop column).take t.size = [cells.getD column none] := by
      rw [hsize, List.take_one_drop_eq_of_lt_length (by omega), List.getD_eq_getElem _ none (by omega)]
      rfl
    rw [hR.getDirect hr (by omega), hcell]
    exact direct_settles t hdirect hread _
  · rename_i hdirect
    obtain ⟨s, hs, hshows⟩ := hR.slice hr hpos hcolumn
    rw [hs]
    refine h s _ hshows ?_ (Bool.eq_false_iff.2 hdirect)
    rw [List.length_take, List.length_drop]
    omega

/-- The loop finds a cell that is not NULL, if there is one. -/
private theorem optionalLoop_settles (hR : R.Lawful Shows) {t : ResultType α} {r : ρ} {cells : List (Option Bytes)}
    (hr : Shows r cells) {found : Conversion (ResultValue α)} (hfound : Settles found (t.value cells)) :
    Settles (optionalLoop R r found (List.range (R.columns r))) ((optional t).value cells) := by
  have hloop (columns : List Nat) (hcolumns : ∀ c ∈ columns, c < cells.length) :
      Settles (optionalLoop R r found columns)
        (if ∀ c ∈ columns, cells.getD c none = none then some .nullopt else (t.value cells).map .engaged) := by
    induction columns with
    | nil => exact .value _
    | cons c columns ih =>
      obtain ⟨hc, hcolumns⟩ := List.forall_mem_cons.1 hcolumns
      simp only [optionalLoop, hR.isNull hr hc, List.forall_mem_cons]
      cases hcell : cells.getD c none with
      | some text =>
        have hfalse : ¬ (some text = none ∧ ∀ c ∈ columns, cells.getD c none = none) := fun h => by cases h.1
        rw [if_neg hfalse]
        exact hfound.map ResultValue.engaged
      | none =>
        have hiff : (none = (none : Option Bytes) ∧ ∀ c ∈ columns, cells.getD c none = none) ↔
            ∀ c ∈ columns, cells.getD c none = none := and_iff_right rfl
        rw [if_congr hiff rfl rfl]
        exact ih hcolumns
  have hall : (∀ c ∈ List.range (R.columns r), cells.getD c none = none) ↔ ∀ x ∈ cells, x = none := by
    rw [hR.columns hr]
    refine ⟨fun h x hx => ?_, fun h c hc => ?_⟩
    · obtain ⟨c, hc, rfl⟩ := List.getElem_of_mem hx
      have hnull := h c (List.mem_range.2 hc)
      rwa [List.getD_eq_getElem _ none hc] at hnull
    · have hlt := List.mem_range.1 hc
      rw [List.getD_eq_getElem _ none hlt]
      exact h _ (List.getElem_mem hlt)
  have hsettles := hloop _ fun c hc => by
    rw [← hR.columns hr]
    exact List.mem_range.1 hc
  rw [if_congr hall rfl rfl] at hsettles
  rw [value]
  exact hsettles

mutual

/-- The `from` of a composite type. -/
private theorem fromRow_settles (hR : R.Lawful Shows) : (t : ResultType α) → t.readable = true → (r : ρ) →
    (cells : List (Option Bytes)) → Shows r cells → cells.length = t.size → t.isDirect = false →
    Settles (fromRow R t r) (t.value cells)
  | leaf _, _, _, _, _, _, hcomposite => by simp [isDirect, size, isAggregate] at hcomposite
  | optional t, hread, r, cells, hr, hlength, hcomposite => by
    have hsize : t.size ≠ 1 := by simpa [isDirect, size, isAggregate] using hcomposite
    have ht : t.isDirect = false := by simp [isDirect, hsize]
    obtain ⟨hread, -⟩ := Bool.and_eq_true_iff.1 hread
    exact optionalLoop_settles hR hr (fromRow_settles hR t hread r cells hr hlength ht)
  | pair t u, hread, r, cells, hr, hlength, _ => by
    obtain ⟨ht, hu⟩ := Bool.and_eq_true_iff.1 hread
    simp only [size] at hlength
    have hfirst := getBy_settles hR ht (fromRow_settles hR t ht) hr 0 (by omega)
    have hsecond := getBy_settles hR hu (fromRow_settles hR u hu) hr t.size (by omega)
    rw [List.drop_zero] at hfirst
    exact hfirst.bind fun v => hsecond.bind fun w => .value _
  | tuple t u ts, hread, r, cells, hr, hlength, _ => by
    obtain ⟨hread, hts⟩ := Bool.and_eq_true_iff.1 hread
    obtain ⟨ht, hu⟩ := Bool.and_eq_true_iff.1 hread
    simp only [size] at hlength
    have hfirst := getBy_settles hR ht (fromRow_settles hR t ht) hr 0 (by omega)
    have hsecond := getBy_settles hR hu (fromRow_settles hR u hu) hr t.size (by omega)
    have hrest := fromMembers_settles hR ts hts r cells (t.size + u.size) hr (by omega)
    rw [List.drop_zero] at hfirst
    rw [← List.drop_drop] at hrest
    simp only [fromRow, exclusiveScan_cons, List.map_cons, List.getD_cons_zero, List.getD_cons_succ,
      List.drop_succ_cons, List.drop_zero, List.map_map, Function.comp_def, Nat.add_zero, ← Nat.add_assoc]
    exact hfirst.bind fun v => hsecond.bind fun w => hrest.bind fun vs => .value _
  | aggregate t ts, hread, r, cells, hr, hlength, _ => by
    obtain ⟨ht, hts⟩ := Bool.and_eq_true_iff.1 hread
    simp only [size] at hlength
    have hfirst := getBy_settles hR ht (fromRow_settles hR t ht) hr 0 (by omega)
    have hrest := fromMembers_settles hR ts hts r cells t.size hr (by omega)
    rw [List.drop_zero] at hfirst
    simp only [fromRow, exclusiveScan_cons, List.getD_cons_zero, List.drop_succ_cons, List.drop_zero]
    exact hfirst.bind fun v => hrest.bind fun vs => .value _

/-- The members from some column on. -/
private theorem fromMembers_settles (hR : R.Lawful Shows) : (ts : List (ResultType α)) → allReadable ts = true →
    (r : ρ) → (cells : List (Option Bytes)) → (column : Nat) → Shows r cells →
    column + (sizes ts).sum = cells.length →
    Settles (fromMembers R ts r ((exclusiveScan (sizes ts)).map (column + ·))) (values ts (cells.drop column))
  | [], _, _, _, _, _, _ => .value _
  | t :: ts, hread, r, cells, column, hr, hlength => by
    obtain ⟨ht, hts⟩ := Bool.and_eq_true_iff.1 hread
    simp only [sizes, List.sum_cons] at hlength
    have hfirst := getBy_settles hR ht (fromRow_settles hR t ht) hr column (by omega)
    have hrest := fromMembers_settles hR ts hts r cells (column + t.size) hr (by omega)
    rw [← List.drop_drop] at hrest
    simp only [fromMembers, sizes, exclusiveScan_cons, List.map_cons, List.getD_cons_zero, List.drop_succ_cons,
      List.drop_zero, List.map_map, Function.comp_def, Nat.add_zero, ← Nat.add_assoc]
    exact hfirst.bind fun v => hrest.bind fun vs => .value _

end

/-- What `get` returns is what the cells say. -/
theorem get_settles (hR : R.Lawful Shows) {t : ResultType α} (hread : t.readable = true) {r : ρ}
    {cells : List (Option Bytes)} (hr : Shows r cells) (column : Nat) (hcolumn : column + t.size ≤ cells.length) :
    Settles (get R t r column) (t.value ((cells.drop column).take t.size)) :=
  getBy_settles hR hread (fromRow_settles hR t hread) hr column hcolumn

end

/-- `as` wants a row with as many columns as the type has. -/
theorem as_of_ne {R : RowClass ρ α} {Shows : ρ → List (Option Bytes) → Prop} (hR : R.Lawful Shows) {t : ResultType α}
    {r : ρ} {cells : List (Option Bytes)} (hr : Shows r cells) (h : t.size ≠ cells.length) :
    as R t r = throw (.columns t.size cells.length) := by
  rw [as, hR.columns hr, if_pos h]

theorem as_settles {R : RowClass ρ α} {Shows : ρ → List (Option Bytes) → Prop} (hR : R.Lawful Shows) {t : ResultType α}
    (hread : t.readable = true) {r : ρ} {cells : List (Option Bytes)} (hr : Shows r cells)
    (h : t.size = cells.length) : Settles (as R t r) (t.value cells) := by
  have hget := get_settles hR hread hr 0 (by omega)
  rw [List.drop_zero, h, List.take_length] at hget
  rw [as, hR.columns hr, if_neg (not_not_intro h)]
  exact hget

/-! ### From leaf to leaf -/

mutual

/-- The types with one column, from left to right. -/
def leaves : ResultType α → List (LeafResult α)
  | leaf t => [t]
  | optional t => leaves t
  | pair t u => leaves t ++ leaves u
  | tuple t u ts => leaves t ++ (leaves u ++ leavesOf ts)
  | aggregate t ts => leaves t ++ leavesOf ts

def leavesOf : List (ResultType α) → List (LeafResult α)
  | [] => []
  | t :: ts => leaves t ++ leavesOf ts

end

mutual

/-- Which of the leaves are converted: those that are in no empty optional. -/
def converted : ResultType α → List (Option Bytes) → List Bool
  | leaf _, _ => [true]
  | optional t, cells => if ∀ x ∈ cells, x = none then List.replicate t.size false else converted t cells
  | pair t u, cells => converted t (cells.take t.size) ++ converted u ((cells.drop t.size).take u.size)
  | tuple t u ts, cells =>
    converted t (cells.take t.size) ++ (converted u ((cells.drop t.size).take u.size) ++
      convertedOf ts ((cells.drop t.size).drop u.size))
  | aggregate t ts, cells => converted t (cells.take t.size) ++ convertedOf ts (cells.drop t.size)

def convertedOf : List (ResultType α) → List (Option Bytes) → List Bool
  | [], _ => []
  | t :: ts, cells => converted t (cells.take t.size) ++ convertedOf ts (cells.drop t.size)

end

mutual

/-- The leaves of a value, with nothing for those in an empty optional. -/
def leafValues : ResultType α → ResultValue α → List (Option α)
  | leaf _, .leaf x => [some x]
  | optional t, .nullopt => List.replicate t.size none
  | optional t, .engaged v => leafValues t v
  | pair t u, .pair v w => leafValues t v ++ leafValues u w
  | tuple t u ts, .tuple (v :: w :: vs) => leafValues t v ++ (leafValues u w ++ leafValuesOf ts vs)
  | aggregate t ts, .aggregate (v :: vs) => leafValues t v ++ leafValuesOf ts vs
  | _, _ => []

def leafValuesOf : List (ResultType α) → List (ResultValue α) → List (Option α)
  | t :: ts, v :: vs => leafValues t v ++ leafValuesOf ts vs
  | _, _ => []

end

/-- What becomes of a leaf. -/
def leafValue : Bool × LeafResult α × Option Bytes → Option (Option α)
  | (false, _, _) => some none
  | (true, l, x) => (l.convert x).map some

/-- The leaves with their cells. -/
def row (t : ResultType α) (cells : List (Option Bytes)) : List (Bool × LeafResult α × Option Bytes) :=
  (converted t cells).zip ((leaves t).zip cells)

def rowOf (ts : List (ResultType α)) (cells : List (Option Bytes)) : List (Bool × LeafResult α × Option Bytes) :=
  (convertedOf ts cells).zip ((leavesOf ts).zip cells)

mutual

theorem leaves_length : (t : ResultType α) → (leaves t).length = t.size
  | leaf _ => rfl
  | optional t => leaves_length t
  | pair t u => by rw [leaves, size, List.length_append, leaves_length t, leaves_length u]
  | tuple t u ts => by
    rw [leaves, size, List.length_append, List.length_append, leaves_length t, leaves_length u, leavesOf_length ts]
  | aggregate t ts => by rw [leaves, size, List.length_append, leaves_length t, leavesOf_length ts]

private theorem leavesOf_length : (ts : List (ResultType α)) → (leavesOf ts).length = (sizes ts).sum
  | [] => rfl
  | t :: ts => by rw [leavesOf, sizes, List.length_append, List.sum_cons, leaves_length t, leavesOf_length ts]

end

mutual

theorem converted_length : (t : ResultType α) → (cells : List (Option Bytes)) → (converted t cells).length = t.size
  | leaf _, _ => rfl
  | optional t, cells => by
    rw [converted, size]
    split
    · exact List.length_replicate
    · exact converted_length t cells
  | pair t u, cells => by rw [converted, size, List.length_append, converted_length t, converted_length u]
  | tuple t u ts, cells => by
    rw [converted, size, List.length_append, List.length_append, converted_length t, converted_length u,
      convertedOf_length ts]
  | aggregate t ts, cells => by rw [converted, size, List.length_append, converted_length t, convertedOf_length ts]

private theorem convertedOf_length : (ts : List (ResultType α)) → (cells : List (Option Bytes)) →
    (convertedOf ts cells).length = (sizes ts).sum
  | [], _ => rfl
  | t :: ts, cells => by
    rw [convertedOf, sizes, List.length_append, List.sum_cons, converted_length t, convertedOf_length ts]

end

/-- The leaves of two parts side by side. -/
private theorem zip_parts {bs bs' : List Bool} {ls ls' : List (LeafResult α)} {cells : List (Option Bytes)} {n : Nat}
    (hb : bs.length = n) (hl : ls.length = n) (hn : n ≤ cells.length) :
    (bs ++ bs').zip ((ls ++ ls').zip cells) =
      bs.zip (ls.zip (cells.take n)) ++ bs'.zip (ls'.zip (cells.drop n)) := by
  have htake : ls.length = (cells.take n).length := by rw [hl, List.length_take, Nat.min_eq_left hn]
  conv => lhs; rw [← List.take_append_drop n cells]
  rw [List.zip_append htake, List.zip_append]
  rw [List.length_zip, ← htake, hb, hl, Nat.min_self]

/-- Where nothing is converted, nothing fails. -/
private theorem mapM_unconverted {n : Nat} {zs : List (LeafResult α × Option Bytes)} (hzs : zs.length = n) :
    ((List.replicate n false).zip zs).mapM leafValue = some (List.replicate n none) := by
  induction n generalizing zs with
  | zero => rfl
  | succ n ih =>
    obtain ⟨z, zs, rfl⟩ := List.exists_cons_of_length_eq_add_one hzs
    rw [List.replicate_succ, List.replicate_succ, List.zip_cons_cons, List.mapM_cons, ih (Nat.succ.inj hzs)]
    rfl

private theorem value_parts {β γ δ ε : Type} {x : Option β} {y : Option γ} {f : β → List ε} {g : γ → List ε}
    {h : β → γ → δ} {k : δ → List ε} (hk : ∀ v w, k (h v w) = f v ++ g w) :
    (x.bind fun v => y.bind fun w => some (h v w)).map k =
      (x.map f).bind fun a => (y.map g).bind fun b => some (a ++ b) := by
  cases x with
  | none => rfl
  | some v =>
    cases y with
    | none => rfl
    | some w => exact congrArg some (hk v w)

mutual

/-- The leaves of the value are made from the cells one by one. -/
theorem value_leaves : (t : ResultType α) → (cells : List (Option Bytes)) → cells.length = t.size →
    (value t cells).map (leafValues t) = (row t cells).mapM leafValue
  | leaf t, cells, hlength => by
    obtain ⟨x, rfl⟩ := List.length_eq_one_iff.1 hlength
    simp only [value, row, converted, leaves, List.getD_cons_zero, List.zip_cons_cons, List.zip_nil_right,
      List.mapM_cons, List.mapM_nil, leafValue]
    cases t.convert x with
    | none => rfl
    | some y => rfl
  | optional t, cells, hlength => by
    have ht := value_leaves t cells hlength
    unfold row at ht ⊢
    rw [value, converted, leaves]
    split
    · have hzip : ((leaves t).zip cells).length = t.size := by
        rw [List.length_zip, leaves_length, hlength, size, Nat.min_self]
      rw [mapM_unconverted hzip]
      rfl
    · rw [← ht]
      cases value t cells with
      | none => rfl
      | some v => rfl
  | pair t u, cells, hlength => by
    simp only [size] at hlength
    have htake : (cells.take t.size).length = t.size := by rw [List.length_take]; omega
    have hdrop : (cells.drop t.size).take u.size = cells.drop t.size :=
      List.take_of_length_le (by rw [List.length_drop]; omega)
    have hfirst := value_leaves t (cells.take t.size) htake
    have hsecond := value_leaves u (cells.drop t.size) (by rw [List.length_drop]; omega)
    unfold row at hfirst hsecond ⊢
    rw [converted, leaves, zip_parts (converted_length t _) (leaves_length t) (by omega), List.mapM_append, hdrop,
      ← hfirst, ← hsecond, value, hdrop]
    exact value_parts fun _ _ => rfl
  | tuple t u ts, cells, hlength => by
    simp only [size] at hlength
    have htake : (cells.take t.size).length = t.size := by rw [List.length_take]; omega
    have htake' : ((cells.drop t.size).take u.size).length = u.size := by rw [List.length_take, List.length_drop]; omega
    have hfirst := value_leaves t (cells.take t.size) htake
    have hsecond := value_leaves u ((cells.drop t.size).take u.size) htake'
    have hrest := values_leaves ts ((cells.drop t.size).drop u.size) (by rw [List.length_drop, List.length_drop]; omega)
    unfold row at hfirst hsecond ⊢
    unfold rowOf at hrest
    rw [converted, leaves, zip_parts (converted_length t _) (leaves_length t) (by omega),
      zip_parts (converted_length u _) (leaves_length u) (by rw [List.length_drop]; omega), List.mapM_append,
      List.mapM_append, ← hfirst, ← hsecond, ← hrest, value]
    cases value t (cells.take t.size) with
    | none => rfl
    | some v =>
      cases value u ((cells.drop t.size).take u.size) with
      | none => rfl
      | some w =>
        cases values ts ((cells.drop t.size).drop u.size) with
        | none => rfl
        | some vs => rfl
  | aggregate t ts, cells, hlength => by
    simp only [size] at hlength
    have htake : (cells.take t.size).length = t.size := by rw [List.length_take]; omega
    have hfirst := value_leaves t (cells.take t.size) htake
    have hrest := values_leaves ts (cells.drop t.size) (by rw [List.length_drop]; omega)
    unfold row at hfirst ⊢
    unfold rowOf at hrest
    rw [converted, leaves, zip_parts (converted_length t _) (leaves_length t) (by omega), List.mapM_append, ← hfirst,
      ← hrest, value]
    exact value_parts fun _ _ => rfl

private theorem values_leaves : (ts : List (ResultType α)) → (cells : List (Option Bytes)) →
    cells.length = (sizes ts).sum → (values ts cells).map (leafValuesOf ts) = (rowOf ts cells).mapM leafValue
  | [], _, _ => rfl
  | t :: ts, cells, hlength => by
    simp only [sizes, List.sum_cons] at hlength
    have htake : (cells.take t.size).length = t.size := by rw [List.length_take]; omega
    have hfirst := value_leaves t (cells.take t.size) htake
    have hrest := values_leaves ts (cells.drop t.size) (by rw [List.length_drop]; omega)
    unfold row at hfirst
    unfold rowOf at hrest ⊢
    rw [convertedOf, leavesOf, zip_parts (converted_length t _) (leaves_length t) (by omega), List.mapM_append,
      ← hfirst, ← hrest, values]
    exact value_parts fun _ _ => rfl

end

private theorem mapM_eq_none_iff {β γ : Type} {f : β → Option γ} {l : List β} :
    l.mapM f = none ↔ ∃ x ∈ l, f x = none := by
  induction l with
  | nil => simp
  | cons x l ih =>
    rw [List.mapM_cons, List.exists_mem_cons_iff, ← ih]
    cases f x with
    | none => simp
    | some y => cases l.mapM f <;> simp

private theorem mapM_getElem? {β γ : Type} {f : β → Option γ} {l : List β} {r : List γ} (h : l.mapM f = some r)
    (i : Nat) : l[i]?.bind f = r[i]? := by
  induction l generalizing r i with
  | nil =>
    obtain rfl := Option.some.inj h
    rfl
  | cons x l ih =>
    rw [List.mapM_cons] at h
    obtain ⟨y, hy, h⟩ := Option.bind_eq_some_iff.1 h
    obtain ⟨ys, hys, h⟩ := Option.bind_eq_some_iff.1 h
    obtain rfl := Option.some.inj h
    cases i with
    | zero => exact hy
    | succ i => exact ih hys i

section

variable {t : ResultType α} {cells : List (Option Bytes)}

private theorem row_getElem? {i : Nat} {b : Bool} {l : LeafResult α} {x : Option Bytes}
    (hb : (converted t cells)[i]? = some b) (hl : (leaves t)[i]? = some l) (hx : cells[i]? = some x) :
    (row t cells)[i]? = some (b, l, x) :=
  List.getElem?_zip_eq_some.2 ⟨hb, List.getElem?_zip_eq_some.2 ⟨hl, hx⟩⟩

/-- There is no value exactly if a leaf that is converted has none. -/
theorem value_eq_none_iff (hlength : cells.length = t.size) : t.value cells = none ↔
    ∃ (i : Nat) (l : LeafResult α) (x : Option Bytes), (converted t cells)[i]? = some true ∧
      (leaves t)[i]? = some l ∧ cells[i]? = some x ∧ l.convert x = none := by
  rw [← Option.map_eq_none_iff (f := leafValues t), value_leaves t cells hlength, mapM_eq_none_iff]
  constructor
  · rintro ⟨⟨b, l, x⟩, hmem, hvalue⟩
    obtain ⟨i, hi⟩ := List.mem_iff_getElem?.1 hmem
    obtain ⟨hb, hrest⟩ := List.getElem?_zip_eq_some.1 hi
    obtain ⟨hl, hx⟩ := List.getElem?_zip_eq_some.1 hrest
    cases b with
    | false => cases hvalue
    | true => exact ⟨i, l, x, hb, hl, hx, Option.map_eq_none_iff.1 hvalue⟩
  · rintro ⟨i, l, x, hb, hl, hx, hconvert⟩
    refine ⟨_, List.mem_of_getElem? (row_getElem? hb hl hx), ?_⟩
    rw [leafValue, hconvert]
    rfl

/-- Each leaf that is converted has the value of its own cell. -/
theorem leafValues_getElem? (hlength : cells.length = t.size) {v : ResultValue α} (hv : t.value cells = some v) {i : Nat}
    {b : Bool} {l : LeafResult α} {x : Option Bytes} (hb : (converted t cells)[i]? = some b)
    (hl : (leaves t)[i]? = some l) (hx : cells[i]? = some x) :
    (leafValues t v)[i]? = some (if b then l.convert x else none) := by
  have hmap := value_leaves t cells hlength
  rw [hv] at hmap
  have hne : t.value cells ≠ none := by simp [hv]
  rw [← mapM_getElem? hmap.symm i, row_getElem? hb hl hx]
  cases b with
  | false => rfl
  | true =>
    cases hconvert : l.convert x with
    | none => exact absurd ((value_eq_none_iff hlength).2 ⟨i, l, x, hb, hl, hx, hconvert⟩) hne
    | some y => simp [leafValue, hconvert]

end

/-- The cells of two parts side by side. -/
private theorem skipped_parts {bs bs' : List Bool} {cells : List (Option Bytes)} {n : Nat} (hb : bs.length = n)
    (hn : n ≤ cells.length) (hfirst : ∀ p ∈ bs.zip (cells.take n), p.1 = false → p.2 = none)
    (hsecond : ∀ p ∈ bs'.zip (cells.drop n), p.1 = false → p.2 = none) :
    ∀ p ∈ (bs ++ bs').zip cells, p.1 = false → p.2 = none := by
  intro p hp
  rw [← List.take_append_drop n cells, List.zip_append (by rw [List.length_take, hb, Nat.min_eq_left hn])] at hp
  exact (List.mem_append.1 hp).elim (hfirst p) (hsecond p)

mutual

/-- Only NULLs are not converted. -/
theorem skipped_null : (t : ResultType α) → (cells : List (Option Bytes)) → cells.length = t.size →
    ∀ p ∈ (converted t cells).zip cells, p.1 = false → p.2 = none
  | leaf t, cells, hlength => by
    obtain ⟨x, rfl⟩ := List.length_eq_one_iff.1 hlength
    simp [converted]
  | optional t, cells, hlength => by
    rw [converted]
    split
    · rename_i hnull
      exact fun p hp _ => hnull _ (List.of_mem_zip hp).2
    · exact skipped_null t cells hlength
  | pair t u, cells, hlength => by
    simp only [size] at hlength
    have htake : (cells.take t.size).length = t.size := by rw [List.length_take]; omega
    have hdrop : (cells.drop t.size).take u.size = cells.drop t.size :=
      List.take_of_length_le (by rw [List.length_drop]; omega)
    rw [converted, hdrop]
    exact skipped_parts (converted_length t _) (by omega) (skipped_null t _ htake)
      (skipped_null u _ (by rw [List.length_drop]; omega))
  | tuple t u ts, cells, hlength => by
    simp only [size] at hlength
    have htake : (cells.take t.size).length = t.size := by rw [List.length_take]; omega
    have htake' : ((cells.drop t.size).take u.size).length = u.size := by rw [List.length_take, List.length_drop]; omega
    rw [converted]
    exact skipped_parts (converted_length t _) (by omega) (skipped_null t _ htake)
      (skipped_parts (converted_length u _) (by rw [List.length_drop]; omega) (skipped_null u _ htake')
        (skippedOf_null ts _ (by rw [List.length_drop, List.length_drop]; omega)))
  | aggregate t ts, cells, hlength => by
    simp only [size] at hlength
    have htake : (cells.take t.size).length = t.size := by rw [List.length_take]; omega
    rw [converted]
    exact skipped_parts (converted_length t _) (by omega) (skipped_null t _ htake)
      (skippedOf_null ts _ (by rw [List.length_drop]; omega))

private theorem skippedOf_null : (ts : List (ResultType α)) → (cells : List (Option Bytes)) →
    cells.length = (sizes ts).sum → ∀ p ∈ (convertedOf ts cells).zip cells, p.1 = false → p.2 = none
  | [], _, _ => by simp [convertedOf]
  | t :: ts, cells, hlength => by
    simp only [sizes, List.sum_cons] at hlength
    have htake : (cells.take t.size).length = t.size := by rw [List.length_take]; omega
    rw [convertedOf]
    exact skipped_parts (converted_length t _) (by omega) (skipped_null t _ htake)
      (skippedOf_null ts _ (by rw [List.length_drop]; omega))

end

/-- A value that was read from left to right: leaf `i` is what cell `i` converts to, unless it is in an empty optional,
where all cells are NULL. -/
structure ReadFrom (t : ResultType α) (cells : List (Option Bytes)) (v : ResultValue α) : Prop where
  value : t.value cells = some v
  leaf (i : Nat) {b : Bool} {l : LeafResult α} {x : Option Bytes} : (converted t cells)[i]? = some b →
    (leaves t)[i]? = some l → cells[i]? = some x → (leafValues t v)[i]? = some (if b then l.convert x else none)
  skipped (i : Nat) {x : Option Bytes} : (converted t cells)[i]? = some false → cells[i]? = some x → x = none

/-- A leaf that is converted has no value. -/
def Fails (t : ResultType α) (cells : List (Option Bytes)) : Prop :=
  ∃ (i : Nat) (l : LeafResult α) (x : Option Bytes), (converted t cells)[i]? = some true ∧ (leaves t)[i]? = some l ∧
    cells[i]? = some x ∧ l.convert x = none

theorem readFrom {t : ResultType α} {cells : List (Option Bytes)} (hlength : cells.length = t.size) {v : ResultValue α}
    (hv : t.value cells = some v) : ReadFrom t cells v where
  value := hv
  leaf := fun _ _ _ _ hb hl hx => leafValues_getElem? hlength hv hb hl hx
  skipped := fun _ x hb hx =>
    skipped_null t cells hlength (false, x) (List.mem_of_getElem? (List.getElem?_zip_eq_some.2 ⟨hb, hx⟩)) rfl

end ResultType

end TaoPQ
