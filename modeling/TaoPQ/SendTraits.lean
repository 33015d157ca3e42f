import TaoPQ.Gen
import TaoPQ.Lib.Bytes

/-!
# Parameters sent directly

`transaction_base::send_traits` and the `parameter_traits` of `std::optional`, `std::pair`, `std::tuple`, aggregates
and types with a `to_taopq`, over any types with one column.  The four arrays that reach `send_params` are those of the
columns from left to right, if they exist at all: the `type` and `format` of an optional are static, and call those of
its member without an object (`sendTraits_reads_iff`).
-/

namespace TaoPQ

/-- `oid` -/
inductive Oid where
  | invalid
  | bytea
  | text
  | other (n : Nat)
  deriving DecidableEq, Repr

/-- The static members of a `parameter_traits` with one column. -/
structure LeafTraits where
  type : Oid
  format : Int
  selfContained : Bool
  deriving DecidableEq, Repr

/-- A column as it is sent. -/
structure Column where
  type : Oid
  value : Option Bytes
  length : Int
  format : Int
  deriving DecidableEq, Repr

/-- A type of parameters.  A tuple, and an aggregate, has at least one member; `converted` is a type whose `to_taopq`
returns the other one. -/
inductive ParamType where
  | leaf (t : LeafTraits)
  | optional (t : ParamType)
  | pair (first second : ParamType)
  | tuple (first : ParamType) (rest : List ParamType)
  | aggregate (first : ParamType) (rest : List ParamType)
  | converted (result : ParamType)

namespace ParamType

mutual

/-- `parameter_traits::columns` -/
def columns : ParamType → Nat
  | leaf _ => 1
  | optional t => columns t
  | pair first second => columns first + columns second
  | tuple first rest => columns first + (columnsOf rest).sum
  | aggregate first rest => columns first + (columnsOf rest).sum
  | converted result => columns result

/-- `parameter_traits< Ts >::columns...` -/
def columnsOf : List ParamType → List Nat
  | [] => []
  | t :: ts => columns t :: columnsOf ts

end

mutual

/-- `parameter_traits::self_contained` -/
def selfContained : ParamType → Bool
  | leaf t => t.selfContained
  | optional t => selfContained t
  | pair first second => selfContained first && selfContained second
  | tuple first rest => selfContained first && allSelfContained rest
  | aggregate first rest => selfContained first && allSelfContained rest
  | converted _ => true

/-- `( parameter_traits< Ts >::self_contained && ... )` -/
def allSelfContained : List ParamType → Bool
  | [] => true
  | t :: ts => selfContained t && allSelfContained ts

end

/-- `type` or `format`, called without an object.  There is no such call where they are not static. -/
def static {β : Type} (get : LeafTraits → β) : ParamType → Nat → Option β
  | leaf t, _ => some (get t)
  | optional t, I => static get t I
  | converted result, I => static get result I
  | pair _ _, _ => none
  | tuple _ _, _ => none
  | aggregate _ _, _ => none

/-- `type` and `format` are static. -/
def isStatic : ParamType → Bool
  | leaf _ => true
  | optional _ => true
  | converted result => isStatic result
  | pair _ _ => false
  | tuple _ _ => false
  | aggregate _ _ => false

mutual

/-- No optional, at any depth, has a member whose `type` and `format` are not static. -/
def wellFormed : ParamType → Bool
  | leaf _ => true
  | optional t => isStatic t && wellFormed t
  | pair first second => wellFormed first && wellFormed second
  | tuple first rest => wellFormed first && allWellFormed rest
  | aggregate first rest => wellFormed first && allWellFormed rest
  | converted result => wellFormed result

def allWellFormed : List ParamType → Bool
  | [] => true
  | t :: ts => wellFormed t && allWellFormed ts

end

mutual

/-- The leaves from left to right. -/
def leaves : ParamType → List LeafTraits
  | leaf t => [t]
  | optional t => leaves t
  | pair first second => leaves first ++ leaves second
  | tuple first rest => leaves first ++ leavesOf rest
  | aggregate first rest => leaves first ++ leavesOf rest
  | converted result => leaves result

def leavesOf : List ParamType → List LeafTraits
  | [] => []
  | t :: ts => leaves t ++ leavesOf ts

end

end ParamType

/-- An argument.  A leaf has what its `value` points to, or nothing for a null pointer, and is `inside` if these bytes
are a part of the argument itself.  An empty optional knows its type. -/
inductive Arg where
  | leaf (t : LeafTraits) (value : Option Bytes) (length : Int) (inside : Bool)
  | nullopt (t : ParamType)
  | optional (v : Arg)
  | pair (first second : Arg)
  | tuple (first : Arg) (rest : List Arg)
  | aggregate (first : Arg) (rest : List Arg)
  | converted (result : Arg)

/-- A `const char*`: null, to bytes that stay where they are, to a part of an argument, to a part of one that is a
temporary, or to nothing any more. -/
inductive Pointer where
  | null
  | kept (text : Bytes)
  | inside (text : Bytes)
  | temporary (text : Bytes)
  | dangling
  deriving DecidableEq, Repr

/-- What is read through a pointer. -/
def Pointer.read : Pointer → Option (Option Bytes)
  | null => some none
  | kept text => some (some text)
  | inside text => some (some text)
  | temporary text => some (some text)
  | dangling => none

instance : Inhabited Pointer := ⟨.null⟩

namespace Arg

mutual

/-- The type of an argument. -/
def paramType : Arg → ParamType
  | leaf t _ _ _ => .leaf t
  | nullopt t => .optional t
  | optional v => .optional (paramType v)
  | pair first second => .pair (paramType first) (paramType second)
  | tuple first rest => .tuple (paramType first) (paramTypes rest)
  | aggregate first rest => .aggregate (paramType first) (paramTypes rest)
  | converted result => .converted (paramType result)

def paramTypes : List Arg → List ParamType
  | [] => []
  | v :: vs => paramType v :: paramTypes vs

end

/-- `parameter_traits::columns` -/
def columns (v : Arg) : Nat := v.paramType.columns

def columnsOf (vs : List Arg) : List Nat := ParamType.columnsOf (paramTypes vs)

section

variable {α : Type} [Inhabited α] (leafCase : LeafTraits → Option Bytes → Int → Bool → α)
  (empty : ParamType → Nat → α) (forward : ParamType → Nat → α → α)

mutual

/-- The common shape of `type`, `value`, `length` and `format`, which differ at the leaves and for optionals. -/
def field : Arg → Nat → α
  | leaf t value length inside, _ => leafCase t value length inside
  | nullopt t, I => empty t I
  | optional v, I => forward (paramType v) I (field v I)
  | pair first second, I =>
    match Gen.outer [columns first, columns second] I with
    | 0 => field first (Gen.inner [columns first, columns second] I)
    | _ => field second (Gen.inner [columns first, columns second] I)
  | tuple first rest, I =>
    match Gen.outer (columns first :: columnsOf rest) I with
    | 0 => field first (Gen.inner (columns first :: columnsOf rest) I)
    | O + 1 => fieldMember rest O (Gen.inner (columns first :: columnsOf rest) I)
  | aggregate first rest, I =>
    match Gen.outer (columns first :: columnsOf rest) I with
    | 0 => field first (Gen.inner (columns first :: columnsOf rest) I)
    | O + 1 => fieldMember rest O (Gen.inner (columns first :: columnsOf rest) I)
  | converted result, I => field result I

/-- The function of member `O`. -/
def fieldMember : List Arg → Nat → Nat → α
  | [], _, _ => default
  | v :: _, 0, I => field v I
  | _ :: vs, O + 1, I => fieldMember vs O I

end

end

section

variable {β : Type} (get : LeafTraits → β)

/-- `type` or `format`, which an optional asks its type for. -/
def asked (v : Arg) (I : Nat) : Option β :=
  field (fun t _ _ _ => some (get t)) (ParamType.static get) (fun t I _ => ParamType.static get t I) v I

def askedMember (vs : List Arg) (O I : Nat) : Option β :=
  fieldMember (fun t _ _ _ => some (get t)) (ParamType.static get) (fun t I _ => ParamType.static get t I) vs O I

end

/-- What the `value` of a leaf returns. -/
def leafPointer (_ : LeafTraits) (value : Option Bytes) (_ : Int) (inside : Bool) : Pointer :=
  value.elim .null (if inside then .inside else .kept)

def leafLength (_ : LeafTraits) (_ : Option Bytes) (length : Int) (_ : Bool) : Int := length

/-- `parameter_traits::type< I >` -/
def type (v : Arg) (I : Nat) : Option Oid := asked LeafTraits.type v I

/-- `parameter_traits::value< I >` -/
def value (v : Arg) (I : Nat) : Pointer := field leafPointer (fun _ _ => .null) (fun _ _ x => x) v I

/-- `parameter_traits::length< I >` -/
def length (v : Arg) (I : Nat) : Int := field leafLength (fun _ _ => 0) (fun _ _ x => x) v I

/-- `parameter_traits::format< I >` -/
def format (v : Arg) (I : Nat) : Option Int := asked LeafTraits.format v I

/-- `std::get< O >( ts ).template type< I >()` -/
def typeMember (vs : List Arg) (O I : Nat) : Option Oid := askedMember LeafTraits.type vs O I

/-- `std::get< O >( ts ).template value< I >()` -/
def valueMember (vs : List Arg) (O I : Nat) : Pointer :=
  fieldMember leafPointer (fun _ _ => .null) (fun _ _ x => x) vs O I

/-- `std::get< O >( ts ).template length< I >()` -/
def lengthMember (vs : List Arg) (O I : Nat) : Int := fieldMember leafLength (fun _ _ => 0) (fun _ _ x => x) vs O I

/-- `std::get< O >( ts ).template format< I >()` -/
def formatMember (vs : List Arg) (O I : Nat) : Option Int := askedMember LeafTraits.format vs O I

end Arg

/-- The arrays that `send_params` gets. -/
@[ext]
structure Arrays where
  types : List (Option Oid)
  values : List Pointer
  lengths : List Int
  formats : List (Option Int)

/-- `transaction_base::send_traits`, and `send_indexed` -/
def sendTraits (ts : List Arg) : Arrays where
  types := (Gen.sequence (Arg.columnsOf ts)).map fun p => Arg.typeMember ts p.1 p.2
  values := (Gen.sequence (Arg.columnsOf ts)).map fun p => Arg.valueMember ts p.1 p.2
  lengths := (Gen.sequence (Arg.columnsOf ts)).map fun p => Arg.lengthMember ts p.1 p.2
  formats := (Gen.sequence (Arg.columnsOf ts)).map fun p => Arg.formatMember ts p.1 p.2

/-- The arrays exist, and the server reads the columns in them. -/
structure Arrays.Reads (A : Arrays) (cs : List Column) : Prop where
  types : A.types = cs.map fun c => some c.type
  values : A.values.map Pointer.read = cs.map fun c => some c.value
  lengths : A.lengths = cs.map Column.length
  formats : A.formats = cs.map fun c => some c.format

/-- One set of arrays behind the other. -/
def Arrays.append (A B : Arrays) : Arrays where
  types := A.types ++ B.types
  values := A.values ++ B.values
  lengths := A.lengths ++ B.lengths
  formats := A.formats ++ B.formats

namespace Arg

section

variable {α : Type} (leafCase : LeafTraits → Option Bytes → Int → Bool → α) (nullCase : LeafTraits → α)

mutual

/-- The leaves from left to right, with one entry for each column of an empty optional. -/
def flatten : Arg → List α
  | leaf t value length inside => [leafCase t value length inside]
  | nullopt t => t.leaves.map nullCase
  | optional v => flatten v
  | pair first second => flatten first ++ flatten second
  | tuple first rest => flatten first ++ flattenAll rest
  | aggregate first rest => flatten first ++ flattenAll rest
  | converted result => flatten result

def flattenAll : List Arg → List α
  | [] => []
  | v :: vs => flatten v ++ flattenAll vs

end

end

/-- What an argument says, where an empty optional has one null for each column. -/
def leaves (v : Arg) : List Column :=
  flatten (fun t value length _ => ⟨t.type, value, length, t.format⟩) (fun t => ⟨t.type, none, 0, t.format⟩) v

def leavesOf (vs : List Arg) : List Column := vs.flatMap leaves

/-- There are bytes to be sent that are a part of the argument itself. -/
def pointsInside (v : Arg) : Bool :=
  (flatten (fun _ value _ inside => value.isSome && inside) (fun _ => false) v).any id

end Arg

namespace ParamType

mutual

theorem columns_eq : (t : ParamType) → t.columns = t.leaves.length
  | leaf _ => rfl
  | optional t => by rw [columns, leaves, columns_eq t]
  | pair t u => by rw [columns, leaves, List.length_append, columns_eq t, columns_eq u]
  | tuple t ts => by rw [columns, leaves, List.length_append, columns_eq t, columnsOf_sum ts]
  | aggregate t ts => by rw [columns, leaves, List.length_append, columns_eq t, columnsOf_sum ts]
  | converted t => by rw [columns, leaves, columns_eq t]

private theorem columnsOf_sum : (ts : List ParamType) → (columnsOf ts).sum = (leavesOf ts).length
  | [] => rfl
  | t :: ts => by rw [columnsOf, leavesOf, List.sum_cons, List.length_append, columns_eq t, columnsOf_sum ts]

end

theorem leaves_ne_nil : (t : ParamType) → t.leaves ≠ []
  | leaf _ => List.cons_ne_nil _ _
  | optional t => leaves_ne_nil t
  | pair t _ => List.append_ne_nil_of_left_ne_nil (leaves_ne_nil t) _
  | tuple t _ => List.append_ne_nil_of_left_ne_nil (leaves_ne_nil t) _
  | aggregate t _ => List.append_ne_nil_of_left_ne_nil (leaves_ne_nil t) _
  | converted t => leaves_ne_nil t

section

variable {β : Type} (get : LeafTraits → β)

/-- The columns of a `type` or `format` that is called without an object. -/
private def staticRow (t : ParamType) : List (Option β) := (List.range t.columns).map (static get t)

/-- There is no such call, and there are columns to call it for. -/
private theorem none_row_ne (t : ParamType) :
    (List.range t.columns).map (fun _ => (none : Option β)) ≠ t.leaves.map fun l => some (get l) := by
  rw [columns_eq]
  cases hl : t.leaves with
  | nil => exact absurd hl t.leaves_ne_nil
  | cons l ls => simp [List.range_succ_eq_map]

/-- Static members can be called without an object, and only they. -/
private theorem staticRow_iff : (t : ParamType) →
    (staticRow get t = t.leaves.map (fun l => some (get l)) ↔ (t.isStatic && t.wellFormed) = true)
  | leaf l => by simp [staticRow, columns, static, leaves, isStatic, wellFormed]
  | optional t => staticRow_iff t
  | pair t u => iff_of_false (none_row_ne get (pair t u)) (by simp [isStatic])
  | tuple t ts => iff_of_false (none_row_ne get (tuple t ts)) (by simp [isStatic])
  | aggregate t ts => iff_of_false (none_row_ne get (aggregate t ts)) (by simp [isStatic])
  | converted t => staticRow_iff t

end

end ParamType

namespace Arg

section

variable {α γ : Type} {leafCase : LeafTraits → Option Bytes → Int → Bool → α} {nullCase : LeafTraits → α}

mutual

private theorem flatten_map (f : α → γ) : (v : Arg) →
    (flatten leafCase nullCase v).map f =
      flatten (fun t value length inside => f (leafCase t value length inside)) (fun t => f (nullCase t)) v
  | leaf _ _ _ _ => rfl
  | nullopt t => List.map_map
  | optional v => flatten_map f v
  | pair v w => by simp only [flatten, List.map_append, flatten_map f v, flatten_map f w]
  | tuple v vs => by simp only [flatten, List.map_append, flatten_map f v, flattenAll_map f vs]
  | aggregate v vs => by simp only [flatten, List.map_append, flatten_map f v, flattenAll_map f vs]
  | converted v => flatten_map f v

private theorem flattenAll_map (f : α → γ) : (vs : List Arg) →
    (flattenAll leafCase nullCase vs).map f =
      flattenAll (fun t value length inside => f (leafCase t value length inside)) (fun t => f (nullCase t)) vs
  | [] => rfl
  | v :: vs => by simp only [flattenAll, List.map_append, flatten_map f v, flattenAll_map f vs]

end

mutual

/-- What depends on the types only is read off the type. -/
private theorem flatten_static (get : LeafTraits → α) : (v : Arg) →
    flatten (fun t _ _ _ => get t) get v = v.paramType.leaves.map get
  | leaf _ _ _ _ => rfl
  | nullopt _ => rfl
  | optional v => flatten_static get v
  | pair v w => by
    simp only [flatten, paramType, ParamType.leaves, List.map_append, flatten_static get v, flatten_static get w]
  | tuple v vs => by
    simp only [flatten, paramType, ParamType.leaves, List.map_append, flatten_static get v, flattenAll_static get vs]
  | aggregate v vs => by
    simp only [flatten, paramType, ParamType.leaves, List.map_append, flatten_static get v, flattenAll_static get vs]
  | converted v => flatten_static get v

private theorem flattenAll_static (get : LeafTraits → α) : (vs : List Arg) →
    flattenAll (fun t _ _ _ => get t) get vs = (ParamType.leavesOf (paramTypes vs)).map get
  | [] => rfl
  | v :: vs => by
    simp only [flattenAll, paramTypes, ParamType.leavesOf, List.map_append, flatten_static get v,
      flattenAll_static get vs]

end

end

theorem columns_eq (v : Arg) : v.columns = v.leaves.length := by
  have hmap := congrArg List.length (flatten_static (fun _ => ()) v)
  rw [leaves, ← List.length_map (f := fun _ => ()), flatten_map, hmap, List.length_map, columns, ParamType.columns_eq]

theorem leaves_ne_nil (v : Arg) : v.leaves ≠ [] := by
  rw [← List.length_pos_iff, ← columns_eq, columns, ParamType.columns_eq, List.length_pos_iff]
  exact ParamType.leaves_ne_nil v.paramType

section

variable {α : Type} [Inhabited α] (leafCase : LeafTraits → Option Bytes → Int → Bool → α)
  (empty : ParamType → Nat → α) (forward : ParamType → Nat → α → α)

/-- What one of the functions returns for the columns of an argument. -/
private def row (v : Arg) : List α := (List.range v.columns).map (field leafCase empty forward v)

private def rows (vs : List Arg) : List α :=
  (Gen.sequence (columnsOf vs)).map fun p => fieldMember leafCase empty forward vs p.1 p.2

/-- The columns of the first argument, then those of the others. -/
private theorem rows_cons (v : Arg) (vs : List Arg) :
    rows leafCase empty forward (v :: vs) = row leafCase empty forward v ++ rows leafCase empty forward vs := by
  unfold rows row
  change List.map _ (Gen.sequence (v.columns :: columnsOf vs)) = _
  rw [Gen.sequence_cons, List.map_append, List.map_map, List.map_map]
  rfl

private theorem row_tuple (v : Arg) (vs : List Arg) :
    row leafCase empty forward (tuple v vs) = rows leafCase empty forward (v :: vs) := by
  unfold rows row Gen.sequence
  rw [List.map_map]
  refine List.map_congr_left fun I _ => ?_
  simp only [Function.comp_apply, field]
  change _ = fieldMember leafCase empty forward (v :: vs) (Gen.outer (v.columns :: columnsOf vs) I)
    (Gen.inner (v.columns :: columnsOf vs) I)
  cases Gen.outer (v.columns :: columnsOf vs) I with
  | zero => rfl
  | succ O => rfl

private theorem row_aggregate (v : Arg) (vs : List Arg) :
    row leafCase empty forward (aggregate v vs) = rows leafCase empty forward (v :: vs) :=
  row_tuple leafCase empty forward v vs

private theorem row_pair (v w : Arg) :
    row leafCase empty forward (pair v w) = row leafCase empty forward v ++ row leafCase empty forward w := by
  have hrows : row leafCase empty forward (pair v w) = rows leafCase empty forward [v, w] := by
    rw [← row_tuple]
    unfold row
    have hcolumns : (tuple v [w]).columns = (pair v w).columns := by
      simp [columns, paramType, paramTypes, ParamType.columns, ParamType.columnsOf]
    rw [hcolumns]
    refine List.map_congr_left fun I _ => ?_
    simp only [field]
    change _ = match Gen.outer [v.columns, w.columns] I with
      | 0 => field leafCase empty forward v (Gen.inner [v.columns, w.columns] I)
      | O + 1 => fieldMember leafCase empty forward [w] O (Gen.inner [v.columns, w.columns] I)
    -- there is no third member
    have hle : Gen.outer [v.columns, w.columns] I ≤ 1 := Gen.outer_le _ I
    cases hO : Gen.outer [v.columns, w.columns] I with
    | zero => rfl
    | succ O =>
      obtain rfl : O = 0 := by omega
      rfl
  rw [hrows, rows_cons, rows_cons]
  exact congrArg _ (List.append_nil _)

end

section

variable {α : Type} [Inhabited α] {leafCase : LeafTraits → Option Bytes → Int → Bool → α} {null : α}

mutual

/-- `value` and `length`, which an optional forwards to its member if it has one. -/
private theorem row_forward : (v : Arg) →
    row leafCase (fun _ _ => null) (fun _ _ x => x) v = flatten leafCase (fun _ => null) v
  | leaf _ _ _ _ => rfl
  | nullopt t => by
    have hcolumns : (nullopt t).columns = t.leaves.length := t.columns_eq
    unfold row flatten
    rw [hcolumns]
    refine List.ext_getElem (by simp) fun n h₁ h₂ => ?_
    simp [field]
  | optional v => row_forward v
  | pair v w => by rw [row_pair, flatten, row_forward v, row_forward w]
  | tuple v vs => by rw [row_tuple, rows_cons, flatten, row_forward v, rows_forward vs]
  | aggregate v vs => by rw [row_aggregate, rows_cons, flatten, row_forward v, rows_forward vs]
  | converted v => row_forward v

private theorem rows_forward : (vs : List Arg) →
    rows leafCase (fun _ _ => null) (fun _ _ x => x) vs = flattenAll leafCase (fun _ => null) vs
  | [] => rfl
  | v :: vs => by rw [rows_cons, flattenAll, row_forward v, rows_forward vs]

end

end

section

variable {β : Type} (get : LeafTraits → β)

private def askedRow (v : Arg) : List (Option β) := (List.range v.columns).map (asked get v)

private def askedRows (vs : List Arg) : List (Option β) :=
  (Gen.sequence (columnsOf vs)).map fun p => askedMember get vs p.1 p.2

private theorem append_iff {xs ys us vs : List (Option β)} {p q : Bool} (hlength : xs.length = us.length)
    (hx : xs = us ↔ p = true) (hy : ys = vs ↔ q = true) : xs ++ ys = us ++ vs ↔ (p && q) = true := by
  rw [Bool.and_eq_true, ← hx, ← hy]
  exact ⟨fun h => List.append_inj h hlength, fun h => h.1 ▸ h.2 ▸ rfl⟩

private theorem askedRow_length (v : Arg) :
    (askedRow get v).length = (v.paramType.leaves.map fun t => some (get t)).length := by
  rw [askedRow, List.length_map, List.length_range, List.length_map, columns, ParamType.columns_eq]

private theorem askedRow_pair (v w : Arg) : askedRow get (pair v w) = askedRow get v ++ askedRow get w :=
  row_pair _ _ _ v w

private theorem askedRow_tuple (v : Arg) (vs : List Arg) :
    askedRow get (tuple v vs) = askedRow get v ++ askedRows get vs :=
  (row_tuple _ _ _ v vs).trans (rows_cons _ _ _ v vs)

private theorem askedRows_cons (v : Arg) (vs : List Arg) :
    askedRows get (v :: vs) = askedRow get v ++ askedRows get vs := rows_cons _ _ _ v vs

mutual

private theorem askedRow_iff : (v : Arg) →
    (askedRow get v = v.paramType.leaves.map (fun t => some (get t)) ↔ v.paramType.wellFormed = true)
  | leaf _ _ _ _ => iff_of_true rfl rfl
  -- an optional asks its type, with a value or without
  | nullopt t => ParamType.staticRow_iff get (.optional t)
  | optional v => ParamType.staticRow_iff get (.optional v.paramType)
  | pair v w => by
    rw [askedRow_pair, paramType, ParamType.leaves, List.map_append]
    exact append_iff (askedRow_length get v) (askedRow_iff v) (askedRow_iff w)
  | tuple v vs => by
    rw [askedRow_tuple, paramType, ParamType.leaves, List.map_append]
    exact append_iff (askedRow_length get v) (askedRow_iff v) (askedRows_iff vs)
  | aggregate v vs => by
    rw [paramType, ParamType.leaves, List.map_append]
    exact (iff_of_eq (congrArg (· = _) (askedRow_tuple get v vs))).trans
      (append_iff (askedRow_length get v) (askedRow_iff v) (askedRows_iff vs))
  | converted v => askedRow_iff v

private theorem askedRows_iff : (vs : List Arg) →
    (askedRows get vs = (ParamType.leavesOf (paramTypes vs)).map (fun t => some (get t)) ↔
      ParamType.allWellFormed (paramTypes vs) = true)
  | [] => iff_of_true rfl rfl
  | v :: vs => by
    rw [askedRows_cons, paramTypes, ParamType.leavesOf, List.map_append]
    exact append_iff (askedRow_length get v) (askedRow_iff v) (askedRows_iff vs)

end

end

/-- The arrays for one argument. -/
def arrays (v : Arg) : Arrays where
  types := (List.range v.columns).map v.type
  values := (List.range v.columns).map v.value
  lengths := (List.range v.columns).map v.length
  formats := (List.range v.columns).map v.format

end Arg

theorem Pointer.read_leafPointer (t : LeafTraits) (value : Option Bytes) (length : Int) (inside : Bool) :
    (Arg.leafPointer t value length inside).read = some value := by
  cases value with
  | none => rfl
  | some text => cases inside <;> rfl

private theorem Arg.values_eq (v : Arg) : v.arrays.values = flatten leafPointer (fun _ => .null) v := row_forward v

/-- An argument does not know that it is a temporary. -/
theorem Arg.value_cases (v : Arg) {x : Pointer} (hx : x ∈ v.arrays.values) :
    x = .null ∨ (∃ text, x = .kept text) ∨ ∃ text, x = .inside text := by
  let known : Pointer → Prop := fun x => x = .null ∨ (∃ text, x = .kept text) ∨ ∃ text, x = .inside text
  have hleaf (t : LeafTraits) (value : Option Bytes) (length : Int) (inside : Bool) :
      known (leafPointer t value length inside) := by
    cases value with
    | none => exact .inl rfl
    | some text =>
      cases inside with
      | false => exact .inr (.inl ⟨text, rfl⟩)
      | true => exact .inr (.inr ⟨text, rfl⟩)
  have hall : v.arrays.values.map known = v.paramType.leaves.map fun _ => True := by
    rw [values_eq, flatten_map, ← flatten_static]
    exact congrArg₂ (fun f g => flatten f g v) (funext fun t => funext fun value => funext fun length =>
      funext fun inside => eq_true (hleaf t value length inside)) (funext fun _ => eq_true (.inl rfl))
  have hmem : known x ∈ v.paramType.leaves.map fun _ => True := hall ▸ List.mem_map_of_mem hx
  obtain ⟨_, _, hknown⟩ := List.mem_map.1 hmem
  exact of_eq_true hknown.symm

def Pointer.isInside : Pointer → Bool
  | inside _ => true
  | _ => false

theorem Arg.pointsInside_eq (v : Arg) : v.pointsInside = v.arrays.values.any Pointer.isInside := by
  have hmap : v.arrays.values.map Pointer.isInside =
      flatten (fun _ value _ inside => value.isSome && inside) (fun _ => false) v := by
    rw [values_eq, flatten_map]
    congr 1
    funext t value length inside
    cases value with
    | none => rfl
    | some text => cases inside <;> rfl
  rw [pointsInside, ← hmap, List.any_map]
  rfl

/-- The arrays for one argument exist unless an optional asks for a type that it cannot name. -/
theorem Arg.arrays_reads_iff (v : Arg) : v.arrays.Reads v.leaves ↔ v.paramType.wellFormed = true := by
  have hstatic {β : Type} (get : LeafTraits → β) (spec : Column → β)
      (h : ∀ t value length, spec ⟨t.type, value, length, t.format⟩ = get t) :
      v.leaves.map (fun c => some (spec c)) = v.paramType.leaves.map fun t => some (get t) := by
    rw [← flatten_static, leaves, flatten_map]
    simp only [h]
  have htypes := hstatic LeafTraits.type Column.type fun _ _ _ => rfl
  have hformats := hstatic LeafTraits.format Column.format fun _ _ _ => rfl
  constructor
  · intro h
    exact (askedRow_iff LeafTraits.type v).1 (h.types.trans htypes)
  · intro h
    refine ⟨((askedRow_iff LeafTraits.type v).2 h).trans htypes.symm, ?_, ?_,
      ((askedRow_iff LeafTraits.format v).2 h).trans hformats.symm⟩
    · rw [values_eq, flatten_map, leaves, flatten_map]
      simp only [Pointer.read_leafPointer]
      rfl
    · have hlengths : v.arrays.lengths = flatten leafLength (fun _ => 0) v := row_forward v
      rw [hlengths, leaves, flatten_map]
      rfl

namespace Arrays

variable {A B : Arrays} {cs ds : List Column}

theorem Reads.append (hA : A.Reads cs) (hB : B.Reads ds) : (A.append B).Reads (cs ++ ds) := by
  refine ⟨?_, ?_, ?_, ?_⟩
  · rw [Arrays.append, hA.types, hB.types, List.map_append]
  · rw [Arrays.append, List.map_append, hA.values, hB.values, List.map_append]
  · rw [Arrays.append, hA.lengths, hB.lengths, List.map_append]
  · rw [Arrays.append, hA.formats, hB.formats, List.map_append]

/-- Arrays of the right size are read apart. -/
theorem reads_append_iff (htypes : A.types.length = cs.length) (hvalues : A.values.length = cs.length)
    (hlengths : A.lengths.length = cs.length) (hformats : A.formats.length = cs.length) :
    (A.append B).Reads (cs ++ ds) ↔ A.Reads cs ∧ B.Reads ds := by
  refine ⟨fun h => ?_, fun h => h.1.append h.2⟩
  have h₁ := h.types
  have h₂ := h.values
  have h₃ := h.lengths
  have h₄ := h.formats
  simp only [append, List.map_append] at h₁ h₂ h₃ h₄
  obtain ⟨ha₁, hb₁⟩ := List.append_inj h₁ (by rw [List.length_map, htypes])
  obtain ⟨ha₂, hb₂⟩ := List.append_inj h₂ (by rw [List.length_map, List.length_map, hvalues])
  obtain ⟨ha₃, hb₃⟩ := List.append_inj h₃ (by rw [List.length_map, hlengths])
  obtain ⟨ha₄, hb₄⟩ := List.append_inj h₄ (by rw [List.length_map, hformats])
  exact ⟨⟨ha₁, ha₂, ha₃, ha₄⟩, ⟨hb₁, hb₂, hb₃, hb₄⟩⟩

end Arrays

theorem sendTraits_cons (v : Arg) (vs : List Arg) : sendTraits (v :: vs) = v.arrays.append (sendTraits vs) :=
  Arrays.ext (Arg.rows_cons _ _ _ v vs) (Arg.rows_cons _ _ _ v vs) (Arg.rows_cons _ _ _ v vs) (Arg.rows_cons _ _ _ v vs)

/-- The columns of all arguments from left to right reach `send_params`, if the arrays exist. -/
theorem sendTraits_reads_iff (vs : List Arg) :
    (sendTraits vs).Reads (Arg.leavesOf vs) ↔ ∀ v ∈ vs, v.paramType.wellFormed = true := by
  induction vs with
  | nil => exact iff_of_true ⟨rfl, rfl, rfl, rfl⟩ (by simp)
  | cons v vs ih =>
    have hsize {α : Type} (f : Nat → α) : ((List.range v.columns).map f).length = v.leaves.length := by
      rw [List.length_map, List.length_range, Arg.columns_eq]
    rw [sendTraits_cons, Arg.leavesOf, List.flatMap_cons,
      Arrays.reads_append_iff (hsize _) (hsize _) (hsize _) (hsize _), Arg.arrays_reads_iff, List.forall_mem_cons]
    exact and_congr_right fun _ => ih

end TaoPQ
