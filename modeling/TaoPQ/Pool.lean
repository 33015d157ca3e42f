import Mathlib.Data.Fintype.Basic
import Mathlib.Logic.Function.Basic
import TaoPQ.Lib.Runs

/-!
# The pool

`internal::pool<T>` (`pool.hpp`), used by any number of threads.  A call is split where other threads can come between:
at the sections under the mutex, at the updates of `m_attached`, and where a weak pointer to a pool is locked or a
reference to a pool is given up, since the last one destroys the pool.  What a thread has still to do is a stack of
`Frame`s, the next one first.

An item is named by a number.  Its deleter is the one of the shared pointers that own it: there is one such deleter as
long as no item has two owners, which `TaoPQ.PoolOwners` proves.
-/

namespace TaoPQ.Pool

/-- A pool, also after it was destroyed. -/
abbrev PoolId := Nat

abbrev Item := Nat

/-- A shared pointer to an item.  All copies of what `create` or `get` has returned bear the same number. -/
structure Handle where
  borrow : Nat
  item : Item
  deriving DecidableEq, Repr

/-- What a thread does next. -/
inductive Frame where
  /-- `create`: call `v_create`. -/
  | create (p : PoolId)
  /-- `create` and `get`: `++m_attached`, and return the shared pointer. -/
  | lend (p : PoolId) (i : Item)
  /-- `get`: call `pull`. -/
  | pull (p : PoolId)
  /-- `get`: call `v_is_valid`. -/
  | pulled (p : PoolId) (i : Item)
  /-- `erase_invalid`: the section under the mutex. -/
  | eraseInvalid (p : PoolId)
  /-- `attach` to a pool, or `detach`: lock the weak pointer of the deleter. -/
  | detach (h : Handle) (target : Option (Option PoolId))
  /-- `--( o->m_attached )` -/
  | detachFrom (h : Handle) (o : PoolId) (target : Option (Option PoolId))
  /-- Set the weak pointer of the deleter, and lock it in `attach`. -/
  | attach (h : Handle) (target : Option (Option PoolId))
  /-- `++( n->m_attached )` -/
  | attachTo (h : Handle) (n : PoolId)
  /-- The deleter: lock the weak pointer. -/
  | deleter (i : Item)
  /-- The deleter: `--( p->m_attached )`. -/
  | deleterFrom (p : PoolId) (i : Item)
  /-- `push`: call `v_is_valid`, and append the item under the mutex. -/
  | push (p : PoolId) (i : Item)
  /-- `delete item` -/
  | delete (i : Item)
  /-- Give up a reference to a pool. -/
  | releasePool (p : PoolId)
  /-- Destroy the shared pointers of a list. -/
  | destroyItems (is : List Item)
  deriving DecidableEq, Repr

/-- What has become of an item. -/
inductive Event where
  /-- The deleter was called, and locked a pool that is alive, or none. -/
  | released (p : Option PoolId)
  | returned (p : PoolId)
  | rejected (p : PoolId)
  | deleted
  deriving DecidableEq, Repr

/-- The pools, the items and the threads.  `owners` counts the shared pointers of the program to a pool, `log` records
what has become of the items, latest first. -/
structure State (Thread : Type) where
  pools : Nat
  owners : PoolId → Nat
  items : PoolId → List Item
  attached : PoolId → Int
  created : Nat
  /-- `m_pool` of the deleter. -/
  deleterPool : Item → Option PoolId
  borrows : Nat
  handles : List Handle
  threads : Thread → List Frame
  log : List (Item × Event)

variable {Thread : Type}

/-- Before any call. -/
def State.init : State Thread where
  pools := 0
  owners := fun _ => 0
  items := fun _ => []
  attached := fun _ => 0
  created := 0
  deleterPool := fun _ => none
  borrows := 0
  handles := []
  threads := fun _ => []
  log := []

/-- The pool that a local shared pointer of the code refers to. -/
def Frame.pool : Frame → Option PoolId
  | .detachFrom _ o _ => some o
  | .attachTo _ n => some n
  | .deleterFrom p _ => some p
  | .push p _ => some p
  | .releasePool p => some p
  | _ => none

/-- The shared pointer that is an argument of `attach` or `detach`. -/
def Frame.pinned : Frame → Option Handle
  | .detach h _ => some h
  | .detachFrom h _ _ => some h
  | .attach h _ => some h
  | .attachTo h _ => some h
  | _ => none

namespace State

variable (s : State Thread)

/-- Somebody refers to the pool: `m_pool.lock()` succeeds. -/
def Living (p : PoolId) : Prop := 0 < s.owners p ∨ ∃ k, ∃ f ∈ s.threads k, f.pool = some p

/-- A call of `attach` or `detach` works on the item. -/
def Pinned (i : Item) : Prop := ∃ k, ∃ f ∈ s.threads k, ∃ h, f.pinned = some h ∧ h.item = i

/-- No operation is in progress. -/
def AtRest : Prop := ∀ k, s.threads k = []

/-- What has become of an item, latest first. -/
def story (i : Item) : List Event := (s.log.filter fun e => e.1 = i).map Prod.snd

instance [Fintype Thread] (p : PoolId) : Decidable (s.Living p) :=
  inferInstanceAs (Decidable (0 < s.owners p ∨ ∃ k, ∃ f ∈ s.threads k, f.pool = some p))

instance [Fintype Thread] (i : Item) : Decidable (s.Pinned i) :=
  decidable_of_iff (∃ k, ∃ f ∈ s.threads k, f.pinned.any (·.item = i) = true) (by simp [Pinned, Option.any_eq_true])

instance [Fintype Thread] : Decidable s.AtRest := inferInstanceAs (Decidable (∀ k, s.threads k = []))

variable {s} [DecidableEq Thread]

def setThread (s : State Thread) (k : Thread) (fs : List Frame) : State Thread :=
  { s with threads := Function.update s.threads k fs }

def setItems (s : State Thread) (p : PoolId) (is : List Item) : State Thread :=
  { s with items := Function.update s.items p is }

/-- `m_attached` changes by one. -/
def addAttached (s : State Thread) (p : PoolId) (n : Int) : State Thread :=
  { s with attached := Function.update s.attached p (s.attached p + n) }

def setDeleterPool (s : State Thread) (i : Item) (p : Option PoolId) : State Thread :=
  { s with deleterPool := Function.update s.deleterPool i p }

def record (s : State Thread) (i : Item) (e : Event) : State Thread := { s with log := (i, e) :: s.log }

/-- The program gets a new shared pointer. -/
def lend (s : State Thread) (i : Item) : State Thread :=
  { s with handles := ⟨s.borrows, i⟩ :: s.handles, borrows := s.borrows + 1 }

/-- The weak pointer refers to a pool that is alive. -/
def lock [Fintype Thread] (s : State Thread) (p : Option PoolId) : Option PoolId :=
  p.filter fun p => s.Living p

end State

section Step

variable [Fintype Thread] [DecidableEq Thread]

/-- A thread does the first thing on its stack.  `valid` is what `v_is_valid` answers, `creates` says whether
`v_create` returns or throws. -/
def runFrame (valid : Item → Bool) (creates : Bool) (s : State Thread) (k : Thread) (rest : List Frame) :
    Frame → State Thread
  | .create p =>
    if creates then
      { s.setDeleterPool s.created (some p) with created := s.created + 1 }.setThread k (.lend p s.created :: rest)
    else s.setThread k rest
  | .lend p i => ((s.addAttached p 1).lend i).setThread k rest
  | .pull p =>
    match (s.items p).getLast? with
    | some i => (s.setItems p (s.items p).dropLast).setThread k (.pulled p i :: rest)
    | none => s.setThread k (.create p :: rest)
  | .pulled p i =>
    if valid i then (s.setDeleterPool i (some p)).setThread k (.lend p i :: rest)
    else s.setThread k (.deleter i :: .pull p :: rest)
  | .eraseInvalid p =>
    (s.setItems p ((s.items p).filter valid)).setThread k (.destroyItems ((s.items p).filter (!valid ·)) :: rest)
  | .detach h target =>
    match s.lock (s.deleterPool h.item) with
    | some o => s.setThread k (.detachFrom h o target :: rest)
    | none => s.setThread k (.attach h target :: rest)
  | .detachFrom h o target => (s.addAttached o (-1)).setThread k (.releasePool o :: .attach h target :: rest)
  | .attach h target =>
    let s := s.setDeleterPool h.item target.join
    match s.lock target.join with
    | some n => s.setThread k (.attachTo h n :: rest)
    | none => { s with handles := h :: s.handles }.setThread k rest
  | .attachTo h n =>
    { s.addAttached n 1 with handles := h :: s.handles }.setThread k (.releasePool n :: rest)
  | .deleter i =>
    match s.lock (s.deleterPool i) with
    | some p => (s.record i (.released (some p))).setThread k (.deleterFrom p i :: rest)
    | none => (s.record i (.released none)).setThread k (.delete i :: rest)
  | .deleterFrom p i => (s.addAttached p (-1)).setThread k (.push p i :: rest)
  | .push p i =>
    if valid i then
      ((((s.setDeleterPool i none).setItems p (s.items p ++ [i])).record i (.returned p))).setThread k
        (.releasePool p :: rest)
    else (s.record i (.rejected p)).setThread k (.releasePool p :: .delete i :: rest)
  | .delete i => ((s.setDeleterPool i none).record i .deleted).setThread k rest
  | .releasePool p =>
    let s := s.setThread k rest
    -- the members of the pool are destroyed with it
    if s.Living p then s else (s.setItems p []).setThread k (.destroyItems (s.items p) :: rest)
  | .destroyItems [] => s.setThread k rest
  | .destroyItems (i :: is) => s.setThread k (.deleter i :: .destroyItems is :: rest)

/-- What the program and its threads do. -/
inductive Action (Thread : Type) where
  | newPool
  | copyPool (p : PoolId)
  | dropPool (k : Thread) (p : PoolId)
  | create (k : Thread) (p : PoolId)
  | get (k : Thread) (p : PoolId)
  | eraseInvalid (k : Thread) (p : PoolId)
  | copyHandle (h : Handle)
  | dropHandle (k : Thread) (h : Handle)
  | attach (k : Thread) (h : Handle) (p : Option PoolId)
  | detach (k : Thread) (h : Handle)
  | run (k : Thread) (valid : Item → Bool) (creates : Bool)

/-- A thread that is not in a call begins one on a pool, to which the program refers until the call is over. -/
def callPool (s : State Thread) (k : Thread) (p : PoolId) (f : Frame) : Option (State Thread) :=
  if s.threads k = [] ∧ 0 < s.owners p then some (s.setThread k [f, .releasePool p]) else none

/-- A thread that is not in a call begins `attach` or `detach`, with a shared pointer of the program. -/
def callHandle (s : State Thread) (k : Thread) (h : Handle) (target : Option (Option PoolId)) : Option (State Thread) :=
  if s.threads k = [] ∧ h ∈ s.handles then
    some ({ s with handles := s.handles.erase h }.setThread k [.detach h target])
  else none

/-- One step of the program or of one of its threads. -/
def step (s : State Thread) : Action Thread → Option (State Thread)
  | .newPool =>
    some { s with
      pools := s.pools + 1
      owners := Function.update s.owners s.pools 1
      attached := Function.update s.attached s.pools 0 }
  | .copyPool p =>
    if 0 < s.owners p then some { s with owners := Function.update s.owners p (s.owners p + 1) } else none
  | .dropPool k p =>
    if s.threads k = [] ∧ 0 < s.owners p then
      some ({ s with owners := Function.update s.owners p (s.owners p - 1) }.setThread k [.releasePool p])
    else none
  | .create k p => callPool s k p (.create p)
  | .get k p => callPool s k p (.pull p)
  | .eraseInvalid k p => callPool s k p (.eraseInvalid p)
  | .copyHandle h => if h ∈ s.handles then some { s with handles := h :: s.handles } else none
  | .dropHandle k h =>
    if s.threads k = [] ∧ h ∈ s.handles then
      let s := { s with handles := s.handles.erase h }
      -- the last one calls the deleter
      if s.Pinned h.item ∨ ∃ h' ∈ s.handles, h'.item = h.item then some s
      else some (s.setThread k [.deleter h.item])
    else none
  | .attach k h p => if ∀ n ∈ p, n < s.pools then callHandle s k h (some p) else none
  | .detach k h => callHandle s k h none
  | .run k valid creates =>
    match s.threads k with
    | [] => none
    | f :: rest => some (runFrame valid creates s k rest f)

/-- The states reached by steps that `ok` accepts. -/
abbrev Reaches (ok : State Thread → Action Thread → Prop) : State Thread → Prop := Run .init step ok

end Step

end TaoPQ.Pool
