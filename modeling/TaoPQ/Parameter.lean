import TaoPQ.SendTraits

/-!
# Parameter objects

`parameter< Max >`: arguments are bound one after the other, each behind what is there, and the arrays are sent later.
An argument that is passed as a temporary moves into the object, unless its traits are `self_contained`: then only the
traits are kept, and what they point to inside the argument is gone when the statement is over.  However arguments are
bound, copied and sent, the server gets the columns from left to right, with these two exceptions (`agree_iff`).
-/

namespace TaoPQ

/-- Where a pointer to a part of an argument leads if the argument is a temporary. -/
def Pointer.toTemporary : Pointer → Pointer
  | inside text => temporary text
  | x => x

/-- The end of a statement, and of its temporaries. -/
def Pointer.lapse : Pointer → Pointer
  | temporary _ => dangling
  | x => x

/-- `std::length_error` -/
inductive LengthError where
  | tooManyParameters
  deriving DecidableEq

/-- The message. -/
def LengthError.what : LengthError → String
  | tooManyParameters => "too many parameters!"

/-- `parameter< Max >` -/
structure Parameter where
  max : Nat
  pos : Nat
  size : Nat
  types : Nat → Option Oid
  values : Nat → Pointer
  lengths : Nat → Int
  formats : Nat → Option Int

/-- `a[ size + Is ] = f( Is )`, for each of the indices below `n`. -/
def assign {α : Type} (a : Nat → α) (size n : Nat) (f : Nat → α) : Nat → α :=
  (List.range n).foldl (fun a I => Function.update a (size + I) (f I)) a

namespace Parameter

/-- An object before anything is bound.  The arrays are not initialised. -/
def empty (max : Nat) : Parameter where
  max := max
  pos := 0
  size := 0
  types := fun _ => none
  values := fun _ => .dangling
  lengths := fun _ => 0
  formats := fun _ => none

/-- What `send` passes on. -/
def arrays (p : Parameter) : Arrays where
  types := (List.range p.size).map p.types
  values := (List.range p.size).map p.values
  lengths := (List.range p.size).map p.lengths
  formats := (List.range p.size).map p.formats

/-- `fill`, from the traits of an argument.  They point to the argument, or to where it is held. -/
def fill (p : Parameter) (v : Arg) (pointer : Pointer → Pointer) : Parameter :=
  { p with
    types := assign p.types p.size v.columns v.type
    values := assign p.values p.size v.columns fun I => pointer (v.value I)
    lengths := assign p.lengths p.size v.columns v.length
    formats := assign p.formats p.size v.columns v.format }

/-- `bind_impl( A&& )`: a `holder` takes the argument over, a `binder` has its traits only. -/
def bindValue (p : Parameter) (v : Arg) (rvalue : Bool) : Except LengthError Parameter :=
  if p.max < p.size + v.columns then .error .tooManyParameters
  else
    let hold := rvalue && !v.paramType.selfContained
    let q := p.fill v (if rvalue && !hold then Pointer.toTemporary else id)
    .ok { q with pos := q.pos + 1, size := q.size + v.columns }

/-- `bind_impl( const parameter< N >& )`.  The object may be this one: what is written lies behind what is read. -/
def bindObject (p q : Parameter) : Except LengthError Parameter :=
  if p.max < p.size + q.size then .error .tooManyParameters
  else
    .ok { p with
      types := assign p.types p.size q.size q.types
      values := assign p.values p.size q.size q.values
      lengths := assign p.lengths p.size q.size q.lengths
      formats := assign p.formats p.size q.size q.formats
      size := p.size + q.size }

def lapse (p : Parameter) : Parameter := { p with values := fun n => (p.values n).lapse }

/-- What is passed: an argument, as an lvalue or as a temporary, or a reference to the object with an index. -/
inductive Source where
  | value (v : Arg) (rvalue : Bool)
  | object (i : Nat)

/-- The object with an index. -/
def objectAt (objects : List Parameter) (i : Nat) : Parameter := objects.getD i (.empty 0)

/-- `bind_impl`, of object `self`, or of one that is being made. -/
def bindImpl (objects : List Parameter) (self : Option Nat) (p : Parameter) : Source → Except LengthError Parameter
  | .value v rvalue => p.bindValue v rvalue
  | .object i => p.bindObject (if self = some i then p else objectAt objects i)

/-- `bind`.  The sources that fit stay bound when a later one does not. -/
def bind (objects : List Parameter) (self : Option Nat) (p : Parameter) :
    List Source → Parameter × Except LengthError Unit
  | [] => (p, .ok ())
  | x :: xs =>
    match bindImpl objects self p x with
    | .ok q => bind objects self q xs
    | .error e => (p, .error e)

/-- `internal::parameter_size` -/
def parameterSize (objects : List Parameter) : List Source → Nat
  | [] => 0
  | .value v _ :: xs => v.columns + parameterSize objects xs
  | .object i :: xs => (objectAt objects i).max + parameterSize objects xs

/-- The arguments, if no object is among the sources. -/
def direct : List Source → Option (List Arg)
  | [] => some []
  | .value v _ :: xs => (direct xs).map (v :: ·)
  | .object _ :: _ => none

/-- A statement of a program. -/
inductive Statement where
  /-- `parameter< max > p( sources... );` -/
  | create (max : Nat) (sources : List Source)
  /-- `p.bind( sources... );` -/
  | bind (i : Nat) (sources : List Source)
  /-- `tr.send( statement, sources... );` -/
  | send (sources : List Source)
  /-- `tr.send( statement, parameter< max >( sources... ) );` -/
  | sendNew (max : Nat) (sources : List Source)

/-- What comes of a statement. -/
inductive Reply where
  | done
  | sent (A : Arrays)
  | lengthError (e : LengthError)

/-- The three forms of `send`: one object, direct arguments, and a mixture that is bound to an object of its own. -/
def send (objects : List Parameter) (sources : List Source) : Reply :=
  match sources, direct sources with
  | [.object i], _ => .sent (objectAt objects i).arrays
  | _, some vs => .sent (sendTraits vs)
  | _, none =>
    match bind objects none (.empty (parameterSize objects sources)) sources with
    | (p, .ok _) => .sent p.arrays
    | (_, .error e) => .lengthError e

/-- A statement, up to its end. -/
def perform (objects : List Parameter) : Statement → Reply × List Parameter
  | .create max sources =>
    match bind objects none (.empty max) sources with
    | (p, .ok _) => (.done, (objects ++ [p]).map Parameter.lapse)
    | (_, .error e) => (.lengthError e, objects)
  | .bind i sources =>
    match bind objects (some i) (objectAt objects i) sources with
    | (p, .ok _) => (.done, (objects.set i p).map Parameter.lapse)
    | (p, .error e) => (.lengthError e, (objects.set i p).map Parameter.lapse)
  | .send sources => (send objects sources, objects)
  | .sendNew max sources =>
    match bind objects none (.empty max) sources with
    | (p, .ok _) => (.sent p.arrays, objects)
    | (_, .error e) => (.lengthError e, objects)

/-- The objects after a program. -/
def objectsAfter (ss : List Statement) : List Parameter := ss.foldl (fun objects s => (perform objects s).2) []

/-- An object as its user sees it: a list of columns of bounded length. -/
structure Contents where
  max : Nat
  columns : List Column

def contentsAt (contents : List Contents) (i : Nat) : Contents := contents.getD i ⟨0, []⟩

/-- The columns that a source stands for, where object `self` holds `cs` by now. -/
def Source.columns (contents : List Contents) (self : Option Nat) (cs : List Column) : Source → List Column
  | .value v _ => v.leaves
  | .object i => if self = some i then cs else (contentsAt contents i).columns

/-- All sources behind `cs`, one after the other. -/
def joined (contents : List Contents) (self : Option Nat) (cs : List Column) : List Source → List Column
  | [] => cs
  | x :: xs => joined contents self (cs ++ x.columns contents self cs) xs

/-- The sources behind `cs` up to the first one that does not fit. -/
def fitting (contents : List Contents) (self : Option Nat) (max : Nat) (cs : List Column) :
    List Source → List Column
  | [] => cs
  | x :: xs =>
    if max < (cs ++ x.columns contents self cs).length then cs
    else fitting contents self max (cs ++ x.columns contents self cs) xs

/-- What the objects hold after a statement. -/
def contentsStep (contents : List Contents) : Statement → List Contents
  | .create max sources =>
    if max < (joined contents none [] sources).length then contents
    else contents ++ [⟨max, joined contents none [] sources⟩]
  | .bind i sources =>
    let c := contentsAt contents i
    contents.set i ⟨c.max, fitting contents (some i) c.max c.columns sources⟩
  | .send _ => contents
  | .sendNew _ _ => contents

/-- What the objects hold after a program. -/
def contentsAfter (ss : List Statement) : List Contents := ss.foldl contentsStep []

/-- What is to come of a statement: `std::length_error` if and only if there are too many columns, and else the columns
of the sources from left to right. -/
def Meets (contents : List Contents) : Statement → Reply → Prop
  | .create max sources, r =>
    r = if max < (joined contents none [] sources).length then .lengthError .tooManyParameters else .done
  | .bind i sources, r =>
    r = if (contentsAt contents i).max < (joined contents (some i) (contentsAt contents i).columns sources).length then
      .lengthError .tooManyParameters else .done
  | .send sources, r => ∃ A, r = .sent A ∧ A.Reads (joined contents none [] sources)
  | .sendNew max sources, r =>
    if max < (joined contents none [] sources).length then r = .lengthError .tooManyParameters
    else ∃ A, r = .sent A ∧ A.Reads (joined contents none [] sources)

/-- The arguments among the sources of a statement. -/
def Statement.sources : Statement → List Source
  | .create _ sources => sources
  | .bind _ sources => sources
  | .send sources => sources
  | .sendNew _ sources => sources

/-- A statement passes no other arguments than these, each as an lvalue or as a temporary. -/
def Statement.From (args : List (Arg × Bool)) (s : Statement) : Prop :=
  ∀ v rvalue, .value v rvalue ∈ s.sources → (v, rvalue) ∈ args

/-- All ways of passing the arguments agree: sent at once, and in any program that passes them in any order and
grouping, by way of any objects. -/
structure Agree (args : List (Arg × Bool)) : Prop where
  direct : (sendTraits (args.map Prod.fst)).Reads (Arg.leavesOf (args.map Prod.fst))
  objects : ∀ ss s, (∀ t ∈ s :: ss, t.From args) → Meets (contentsAfter ss) s (perform (objectsAfter ss) s).1

section

variable {α : Type} (a : Nat → α) (size n : Nat) (f : Nat → α)

private theorem assign_succ : assign a size (n + 1) f = Function.update (assign a size n f) (size + n) (f n) := by
  unfold assign
  rw [List.range_succ, List.foldl_append]
  rfl

theorem assign_before {i : Nat} (h : i < size) : assign a size n f i = a i := by
  induction n with
  | zero => rfl
  | succ n ih =>
    rw [assign_succ, Function.update_of_ne (by omega), ih]

theorem assign_behind {I : Nat} (h : I < n) : assign a size n f (size + I) = f I := by
  induction n with
  | zero => omega
  | succ n ih =>
    rw [assign_succ]
    by_cases hI : I = n
    · rw [hI, Function.update_self]
    · rw [Function.update_of_ne (by omega), ih (by omega)]

/-- What is written comes behind what is there. -/
private theorem map_assign :
    (List.range (size + n)).map (assign a size n f) = (List.range size).map a ++ (List.range n).map f := by
  rw [List.range_add, List.map_append, List.map_map]
  congr 1
  · exact List.map_congr_left fun i hi => assign_before a size n f (List.mem_range.1 hi)
  · exact List.map_congr_left fun I hI => assign_behind a size n f (List.mem_range.1 hI)

end

/-- The arrays of an argument come behind those of the object. -/
private theorem fill_arrays (p : Parameter) (v : Arg) (pointer : Pointer → Pointer) (pos : Nat) :
    arrays { p.fill v pointer with pos := pos, size := p.size + v.columns } =
      p.arrays.append { v.arrays with values := v.arrays.values.map pointer } := by
  refine Arrays.ext (map_assign ..) ((map_assign ..).trans ?_) (map_assign ..) (map_assign ..)
  exact congrArg _ List.map_map.symm

/-- Where no pointer leads into a temporary, the pointers are those of the argument. -/
private theorem map_pointer {v : Arg} {rvalue : Bool}
    (hclean : (rvalue && v.paramType.selfContained && v.pointsInside) = false) :
    { v.arrays with values := v.arrays.values.map (if rvalue && !(rvalue && !v.paramType.selfContained) then
      Pointer.toTemporary else id) } = v.arrays := by
  refine Arrays.ext rfl ((List.map_congr_left fun x hx => ?_).trans (List.map_id _)) rfl rfl
  split
  · rename_i hhold
    have hinside : v.pointsInside = false := by
      revert hhold hclean
      cases rvalue <;> cases v.paramType.selfContained <;> simp
    rw [v.pointsInside_eq, List.any_eq_false] at hinside
    obtain rfl | ⟨text, rfl⟩ | ⟨text, rfl⟩ := v.value_cases hx
    · rfl
    · rfl
    · exact absurd rfl (hinside _ hx)
  · rfl

private theorem lapse_values (p : Parameter) : p.lapse.arrays.values = p.arrays.values.map Pointer.lapse := by
  unfold arrays
  rw [List.map_map]
  rfl

/-- An object holds these columns, and will do so after the statement. -/
structure Holds (p : Parameter) (max : Nat) (cs : List Column) : Prop where
  max : p.max = max
  reads : p.arrays.Reads cs
  lasting : ∀ x ∈ p.arrays.values, x.lapse = x
  pos_le : p.pos ≤ p.size
  size_le : p.size ≤ p.max

namespace Holds

variable {p q : Parameter} {m n : Nat} {cs ds : List Column}

theorem size (h : Holds p m cs) : p.size = cs.length := by
  have hlength := congrArg List.length h.reads.lengths
  simpa [arrays] using hlength

theorem empty (max : Nat) : Holds (.empty max) max [] :=
  ⟨rfl, ⟨rfl, rfl, rfl, rfl⟩, fun _ hx => (List.not_mem_nil hx).elim, Nat.le_refl 0, Nat.zero_le max⟩

/-- The end of a statement changes nothing. -/
theorem lapse (h : Holds p m cs) : Holds p.lapse m cs := by
  have hvalues : p.lapse.arrays.values = p.arrays.values := by
    rw [lapse_values, List.map_congr_left h.lasting]
    exact List.map_id _
  have harrays : p.lapse.arrays = p.arrays := Arrays.ext rfl hvalues rfl rfl
  exact ⟨h.max, harrays ▸ h.reads, harrays ▸ h.lasting, h.pos_le, h.size_le⟩

/-- What is bound is not in a part of a temporary that only its traits are kept of. -/
theorem bindValue {v : Arg} {rvalue : Bool} (hp : Holds p m cs) (hv : v.paramType.wellFormed = true)
    (hclean : (rvalue && v.paramType.selfContained && v.pointsInside) = false) :
    if m < (cs ++ v.leaves).length then p.bindValue v rvalue = .error .tooManyParameters
    else ∃ r, p.bindValue v rvalue = .ok r ∧ Holds r m (cs ++ v.leaves) := by
  have hlength : (cs ++ v.leaves).length = p.size + v.columns := by rw [List.length_append, hp.size, v.columns_eq]
  rw [hlength, ← hp.max]
  unfold Parameter.bindValue
  split
  · rfl
  · rename_i hle
    refine ⟨_, rfl, ?_⟩
    have harrays := fill_arrays p v (if rvalue && !(rvalue && !v.paramType.selfContained) then Pointer.toTemporary
      else id) (p.pos + 1)
    rw [map_pointer hclean] at harrays
    have hcolumns : 0 < v.columns := v.columns_eq ▸ List.length_pos_iff.2 v.leaves_ne_nil
    refine ⟨rfl, harrays.symm ▸ hp.reads.append (v.arrays_reads_iff.2 hv), ?_, Nat.add_le_add hp.pos_le hcolumns,
      Nat.le_of_not_lt hle⟩
    intro x hx
    have hmem := Eq.mp (congrArg (fun A : Arrays => x ∈ A.values) harrays) hx
    refine (List.mem_append.1 hmem).elim (hp.lasting x) fun hx => ?_
    obtain rfl | ⟨text, rfl⟩ | ⟨text, rfl⟩ := v.value_cases hx <;> rfl

theorem bindObject (hp : Holds p m cs) (hq : Holds q n ds) :
    if m < (cs ++ ds).length then p.bindObject q = .error .tooManyParameters
    else ∃ r, p.bindObject q = .ok r ∧ Holds r m (cs ++ ds) := by
  have hlength : (cs ++ ds).length = p.size + q.size := by rw [List.length_append, hp.size, hq.size]
  rw [hlength, ← hp.max]
  unfold Parameter.bindObject
  split
  · rfl
  · rename_i hle
    refine ⟨_, rfl, ?_⟩
    have harrays : ∀ pos, arrays ⟨p.max, pos, p.size + q.size, assign p.types p.size q.size q.types,
        assign p.values p.size q.size q.values, assign p.lengths p.size q.size q.lengths,
        assign p.formats p.size q.size q.formats⟩ = p.arrays.append q.arrays := fun _ =>
      Arrays.ext (map_assign ..) (map_assign ..) (map_assign ..) (map_assign ..)
    refine ⟨rfl, ?_, ?_, Nat.le_add_right_of_le hp.pos_le, Nat.le_of_not_lt hle⟩
    · rw [harrays]
      exact hp.reads.append hq.reads
    · rw [harrays]
      intro x hx
      exact (List.mem_append.1 hx).elim (hp.lasting x) (hq.lasting x)

end Holds

/-- The objects hold these columns. -/
structure Hold (objects : List Parameter) (contents : List Contents) : Prop where
  length : objects.length = contents.length
  holds : ∀ i, Holds (objectAt objects i) (contentsAt contents i).max (contentsAt contents i).columns

/-- An argument that all ways of passing agree on. -/
def Passable (x : Arg × Bool) : Prop :=
  x.1.paramType.wellFormed = true ∧ (x.2 && x.1.paramType.selfContained && x.1.pointsInside) = false

variable {objects : List Parameter} {contents : List Contents}

section

variable {self : Option Nat} {max : Nat}

theorem length_le_joined (contents : List Contents) (self : Option Nat) (cs : List Column) (xs : List Source) :
    cs.length ≤ (joined contents self cs xs).length := by
  induction xs generalizing cs with
  | nil => exact Nat.le_refl _
  | cons x xs ih =>
    have h := ih (cs ++ x.columns contents self cs)
    rw [List.length_append] at h
    exact Nat.le_trans (Nat.le_add_right _ _) h

/-- Sources that fit are bound. -/
theorem fitting_eq {cs : List Column} {xs : List Source} (h : ¬ max < (joined contents self cs xs).length) :
    fitting contents self max cs xs = joined contents self cs xs := by
  induction xs generalizing cs with
  | nil => rfl
  | cons x xs ih =>
    have hle := length_le_joined contents self (cs ++ x.columns contents self cs) xs
    rw [fitting, if_neg fun hlt => h (Nat.lt_of_lt_of_le hlt hle)]
    exact ih h

theorem Holds.bindImpl (self : Option Nat) {x : Source} {p : Parameter} {cs : List Column}
    (hobjects : Hold objects contents) (hp : Holds p max cs)
    (hclean : ∀ v rvalue, .value v rvalue = x → Passable (v, rvalue)) :
    if max < (cs ++ x.columns contents self cs).length then bindImpl objects self p x = .error .tooManyParameters
    else ∃ r, bindImpl objects self p x = .ok r ∧ Holds r max (cs ++ x.columns contents self cs) := by
  cases x with
  | value v rvalue =>
    obtain ⟨hv, hx⟩ := hclean v rvalue rfl
    exact hp.bindValue hv hx
  | object i =>
    by_cases hi : self = some i
    · simpa only [Source.columns, Parameter.bindImpl, if_pos hi] using hp.bindObject hp
    · simpa only [Source.columns, Parameter.bindImpl, if_neg hi] using hp.bindObject (hobjects.holds i)

/-- A run of `bind`: what fits is bound, and the exception tells that not all did. -/
theorem bind_holds (self : Option Nat) (xs : List Source) {p : Parameter} {cs : List Column}
    (hobjects : Hold objects contents) (hp : Holds p max cs)
    (hclean : ∀ v rvalue, .value v rvalue ∈ xs → Passable (v, rvalue)) :
    Holds (bind objects self p xs).1 max (fitting contents self max cs xs) ∧
      (bind objects self p xs).2 =
        if max < (joined contents self cs xs).length then .error .tooManyParameters else .ok () := by
  induction xs generalizing p cs with
  | nil =>
    refine ⟨hp, (if_neg ?_).symm⟩
    rw [joined, ← hp.size, ← hp.max]
    exact Nat.not_lt.2 hp.size_le
  | cons x xs ih =>
    have hstep := Holds.bindImpl self hobjects hp fun v rvalue hv => hclean v rvalue (hv ▸ List.mem_cons_self)
    have hle := length_le_joined contents self (cs ++ x.columns contents self cs) xs
    rw [bind, fitting, joined]
    split at hstep
    · rename_i hlt
      rw [hstep, if_pos hlt, if_pos (Nat.lt_of_lt_of_le hlt hle)]
      exact ⟨hp, rfl⟩
    · rename_i hlt
      obtain ⟨r, hr, hholds⟩ := hstep
      rw [hr, if_neg hlt]
      exact ih hholds fun v rvalue hv => hclean v rvalue (List.mem_cons_of_mem _ hv)

end

namespace Hold

theorem nil : Hold [] [] := ⟨rfl, fun _ => .empty 0⟩

theorem append {p : Parameter} {max : Nat} {cs : List Column} (h : Hold objects contents) (hp : Holds p max cs) :
    Hold (objects ++ [p]) (contents ++ [⟨max, cs⟩]) := by
  refine ⟨by rw [List.length_append, List.length_append, h.length]; rfl, fun i => ?_⟩
  have hi := h.holds i
  simp only [objectAt, contentsAt, List.getD_eq_getElem?_getD, List.getElem?_append, h.length] at hi ⊢
  split
  · exact hi
  · cases i - contents.length with
    | zero => exact hp
    | succ n => exact .empty 0

theorem set {p : Parameter} (h : Hold objects contents) (i : Nat) (c : Contents) (hp : Holds p c.max c.columns) :
    Hold (objects.set i p) (contents.set i c) := by
  refine ⟨by rw [List.length_set, List.length_set, h.length], fun j => ?_⟩
  have hj := h.holds j
  simp only [objectAt, contentsAt, List.getD_eq_getElem?_getD, List.getElem?_set, h.length] at hj ⊢
  by_cases hij : i = j
  · subst hij
    by_cases hi : i < contents.length
    · simpa only [if_pos hi, if_true, Option.getD_some] using hp
    · simpa only [if_neg hi, if_true, Option.getD_none] using Holds.empty 0
  · simpa only [if_neg hij] using hj

theorem lapse (h : Hold objects contents) : Hold (objects.map Parameter.lapse) contents := by
  refine ⟨by rw [List.length_map, h.length], fun i => ?_⟩
  have hi := (h.holds i).lapse
  unfold objectAt at hi ⊢
  rw [List.getD_eq_getElem?_getD] at hi ⊢
  rw [List.getElem?_map]
  cases ho : objects[i]? with
  | some p => exact (ho ▸ hi :)
  | none => exact (ho ▸ hi :)

end Hold

/-- Objects that are not being bound to do not change on the way. -/
theorem joined_none (cs : List Column) (xs : List Source) :
    joined contents none cs xs = cs ++ xs.flatMap (Source.columns contents none []) := by
  induction xs generalizing cs with
  | nil => exact (List.append_nil cs).symm
  | cons x xs ih =>
    have hx : x.columns contents none cs = x.columns contents none [] := by cases x <;> rfl
    rw [joined, ih, List.flatMap_cons, hx, List.append_assoc]

/-- A mixture fits into an object of its own. -/
theorem joined_le_parameterSize (h : Hold objects contents) (xs : List Source) :
    (joined contents none [] xs).length ≤ parameterSize objects xs := by
  rw [joined_none, List.nil_append]
  induction xs with
  | nil => exact Nat.le_refl 0
  | cons x xs ih =>
    rw [List.flatMap_cons, List.length_append]
    cases x with
    | value v rvalue => exact Nat.add_le_add v.columns_eq.ge ih
    | object i =>
      have hi := h.holds i
      exact Nat.add_le_add (hi.size ▸ hi.size_le) ih

theorem direct_eq (contents : List Contents) {xs : List Source} {vs : List Arg} (h : direct xs = some vs) :
    joined contents none [] xs = Arg.leavesOf vs ∧ ∀ v ∈ vs, ∃ rvalue, .value v rvalue ∈ xs := by
  rw [joined_none, List.nil_append]
  induction xs generalizing vs with
  | nil =>
    obtain rfl := Option.some.inj h
    exact ⟨rfl, fun v hv => (List.not_mem_nil hv).elim⟩
  | cons x xs ih =>
    cases x with
    | object i => cases h
    | value v rvalue =>
      obtain ⟨ws, hws, rfl⟩ := Option.map_eq_some_iff.1 h
      obtain ⟨hleaves, hmem⟩ := ih hws
      refine ⟨by rw [List.flatMap_cons, hleaves]; rfl, fun w hw => ?_⟩
      rcases List.mem_cons.1 hw with rfl | hw
      · exact ⟨rvalue, List.mem_cons_self⟩
      · obtain ⟨rvalue', h⟩ := hmem w hw
        exact ⟨rvalue', List.mem_cons_of_mem _ h⟩

/-- All forms of `send` send the columns of the sources. -/
theorem send_reads (h : Hold objects contents) {xs : List Source}
    (hclean : ∀ v rvalue, .value v rvalue ∈ xs → Passable (v, rvalue)) :
    ∃ A, send objects xs = .sent A ∧ A.Reads (joined contents none [] xs) := by
  unfold send
  split
  · rename_i i
    refine ⟨_, rfl, ?_⟩
    exact (h.holds i).reads
  · rename_i vs _ hdirect
    obtain ⟨hleaves, hmem⟩ := direct_eq contents hdirect
    refine ⟨_, rfl, hleaves ▸ (sendTraits_reads_iff vs).2 fun v hv => ?_⟩
    obtain ⟨rvalue, hmem⟩ := hmem v hv
    exact (hclean v rvalue hmem).1
  · rename_i xs _ _ _ _
    have hle := Nat.not_lt.2 (joined_le_parameterSize h xs)
    obtain ⟨hholds, hok⟩ := bind_holds none xs h (.empty (parameterSize objects xs)) hclean
    rw [fitting_eq hle] at hholds
    rw [if_neg hle] at hok
    generalize bind objects none (.empty (parameterSize objects xs)) xs = r at hholds hok ⊢
    obtain ⟨p, _⟩ := r
    obtain rfl := hok
    exact ⟨_, rfl, hholds.reads⟩

/-- One statement. -/
theorem perform_meets (h : Hold objects contents) {s : Statement}
    (hclean : ∀ v rvalue, .value v rvalue ∈ s.sources → Passable (v, rvalue)) :
    Meets contents s (perform objects s).1 ∧ Hold (perform objects s).2 (contentsStep contents s) := by
  cases s with
  | create max xs =>
    obtain ⟨hholds, hresult⟩ := bind_holds none xs h (.empty max) hclean
    simp only [Meets, perform, contentsStep]
    generalize bind objects none (.empty max) xs = r at hholds hresult ⊢
    obtain ⟨p, _⟩ := r
    obtain rfl := hresult
    by_cases hlt : max < (joined contents none [] xs).length
    · simp only [if_pos hlt]
      exact ⟨trivial, h⟩
    · simp only [if_neg hlt]
      exact ⟨trivial, (h.append (fitting_eq hlt ▸ hholds)).lapse⟩
  | bind i xs =>
    obtain ⟨hholds, hresult⟩ := bind_holds (some i) xs h (h.holds i) hclean
    simp only [Meets, perform, contentsStep]
    generalize bind objects (some i) (objectAt objects i) xs = r at hholds hresult ⊢
    obtain ⟨p, _⟩ := r
    obtain rfl := hresult
    have hset := (h.set i ⟨_, fitting contents (some i) (contentsAt contents i).max (contentsAt contents i).columns xs⟩
      hholds).lapse
    by_cases hlt : (contentsAt contents i).max <
        (joined contents (some i) (contentsAt contents i).columns xs).length
    · simp only [if_pos hlt]
      exact ⟨trivial, hset⟩
    · simp only [if_neg hlt]
      exact ⟨trivial, hset⟩
  | send xs => exact ⟨send_reads h hclean, h⟩
  | sendNew max xs =>
    obtain ⟨hholds, hresult⟩ := bind_holds none xs h (.empty max) hclean
    simp only [Meets, perform, contentsStep]
    generalize bind objects none (.empty max) xs = r at hholds hresult ⊢
    obtain ⟨p, _⟩ := r
    obtain rfl := hresult
    by_cases hlt : max < (joined contents none [] xs).length
    · simp only [if_pos hlt]
      exact ⟨trivial, h⟩
    · simp only [if_neg hlt]
      exact ⟨⟨_, rfl, (fitting_eq hlt ▸ hholds).reads⟩, h⟩

/-- A program of any length. -/
theorem objectsAfter_hold {args : List (Arg × Bool)} (hargs : ∀ x ∈ args, Passable x) {ss : List Statement}
    (hss : ∀ s ∈ ss, s.From args) : Hold (objectsAfter ss) (contentsAfter ss) := by
  have hfrom (ss : List Statement) : ∀ objects contents, Hold objects contents → (∀ s ∈ ss, s.From args) →
      Hold (ss.foldl (fun objects s => (perform objects s).2) objects) (ss.foldl contentsStep contents) := by
    induction ss with
    | nil => exact fun _ _ h _ => h
    | cons s ss ih =>
      intro objects contents h hss
      obtain ⟨hs, hss⟩ := List.forall_mem_cons.1 hss
      exact ih _ _ (perform_meets h fun v rvalue hv => hargs _ (hs v rvalue hv)).2 hss
  exact hfrom ss [] [] .nil hss

/-- A temporary that should have been held is found out by an object that is sent later. -/
private theorem not_meets {v : Arg} {rvalue : Bool} (hself : (rvalue && v.paramType.selfContained) = true)
    (hinside : v.pointsInside = true) :
    ¬ Meets (contentsAfter [.create v.columns [.value v rvalue]]) (.send [.object 0])
      (perform (objectsAfter [.create v.columns [.value v rvalue]]) (.send [.object 0])).1 := by
  obtain ⟨rfl, hcontained⟩ := Bool.and_eq_true_iff.1 hself
  have hbind : bind [] none (empty v.columns) [.value v true] =
      ({ (empty v.columns).fill v Pointer.toTemporary with pos := 1, size := (empty v.columns).size + v.columns },
        .ok ()) := by
    simp only [bind, Parameter.bindImpl, Parameter.bindValue, hcontained]
    rw [if_neg (by simp [empty])]
    rfl
  rintro ⟨A, hsent, hreads⟩
  simp only [objectsAfter, List.foldl, perform, hbind] at hsent
  have harrays := congrArg Arrays.values (fill_arrays (empty v.columns) v Pointer.toTemporary 1)
  have hvalues : A.values = (v.arrays.values.map Pointer.toTemporary).map Pointer.lapse := by
    obtain rfl := Reply.sent.inj hsent
    exact (lapse_values _).trans (congrArg (List.map Pointer.lapse) harrays)
  obtain ⟨x, hx, hxinside⟩ := List.any_eq_true.1 (v.pointsInside_eq ▸ hinside)
  obtain ⟨text, rfl⟩ : ∃ text, x = .inside text := by
    cases x with
    | inside text => exact ⟨text, rfl⟩
    | _ => cases hxinside
  -- the pointer is read as none, and every column has a value or a null
  have hread : Pointer.dangling.read ∈ A.values.map Pointer.read := by
    rw [hvalues]
    exact List.mem_map_of_mem (List.mem_map_of_mem (List.mem_map_of_mem hx))
  rw [hreads.values] at hread
  obtain ⟨c, -, hc⟩ := List.mem_map.1 hread
  cases hc

private theorem Agree.passable {args : List (Arg × Bool)} (h : Agree args) {x : Arg × Bool} (hx : x ∈ args) :
    Passable x := by
  refine ⟨(sendTraits_reads_iff _).1 h.direct _ (List.mem_map_of_mem hx), ?_⟩
  by_contra hclean
  obtain ⟨hself, hinside⟩ := Bool.and_eq_true_iff.1 (Bool.of_not_eq_false hclean)
  refine not_meets hself hinside (h.objects _ _ fun s hs => ?_)
  intro v rvalue hv
  rcases List.mem_cons.1 hs with rfl | hs
  · simp [Statement.sources] at hv
  · obtain rfl := List.mem_singleton.1 hs
    obtain ⟨rfl, rfl⟩ := Source.value.inj (List.mem_singleton.1 hv)
    exact hx

/-- All ways of passing arguments agree if and only if each optional can name its type without an object, and no
temporary is bound that the `self_contained` of its traits is wrong for. -/
theorem agree_iff (args : List (Arg × Bool)) : Agree args ↔ ∀ x ∈ args, Passable x := by
  constructor
  · exact fun h x hx => h.passable hx
  · intro h
    refine ⟨(sendTraits_reads_iff _).2 fun v hv => ?_, fun ss s hs => ?_⟩
    · obtain ⟨x, hx, rfl⟩ := List.mem_map.1 hv
      exact (h x hx).1
    · obtain ⟨hs, hss⟩ := List.forall_mem_cons.1 hs
      exact (perform_meets (objectsAfter_hold h hss) fun v rvalue hv => h _ (hs v rvalue hv)).1

/-- A temporary whose `to_taopq` ties a string member, and an optional pair. -/
theorem disagree :
    ¬ Agree [(.converted (.tuple (.leaf ⟨.invalid, 0, false⟩ (some (ascii "abc")) 0 true) []), true)] ∧
      ¬ Agree [(.nullopt (.pair (.leaf ⟨.invalid, 0, true⟩) (.leaf ⟨.invalid, 0, true⟩)), false)] := by
  refine ⟨fun h => ?_, fun h => ?_⟩
  · have hpassable := (h.passable (List.mem_singleton_self _)).2
    simp [Arg.paramType, ParamType.selfContained, Arg.pointsInside, Arg.flatten, Arg.flattenAll] at hpassable
  · have hpassable := (h.passable (List.mem_singleton_self _)).1
    simp [Arg.paramType, ParamType.wellFormed, ParamType.isStatic] at hpassable

end Parameter

end TaoPQ
