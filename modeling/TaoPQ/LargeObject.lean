import TaoPQ.Destruction
import TaoPQ.References
import TaoPQ.Registration
import TaoPQ.Lib.Runs
import Mathlib.Logic.Function.Basic

/-!
# Large objects

`large_object` (`large_object.hpp`, `large_object.cpp`): a shared pointer to a transaction and the number of a
descriptor.  The shared pointer tells who has to close the descriptor, since the number is copied when a large object is
moved.  `close`, and with it the assignment and the destructor, follow the connection of the transaction, which has none
any more once it was committed or rolled back.

The descriptors are the server's, which may close them at any time, as it does when a statement fails.  In a transaction
block it does not give the number again before `lo_close` has succeeded, or the transaction has ended that was current
when the descriptor was opened.  Outside a block it may, and so it may when transactions were ended out of order.
-/

namespace TaoPQ

open Exec

/-- `large_object` -/
structure LargeObject where
  transaction : Option Addr
  fd : Nat
  deriving DecidableEq, Repr

/-- A descriptor: the transaction that was passed when it was opened, the one in whose block this was, whether it is
open, and what the calls of `lo_close` came to, latest first. -/
structure Descriptor where
  transaction : Addr
  block : Option Addr
  isOpen : Bool
  closes : List Bool
  deriving DecidableEq, Repr

/-- A connection and its objects, with the large objects of a program, and for each number the descriptors that had it,
latest first. -/
structure LargeObjects (DB : Type) where
  state : State DB
  objects : AList (fun _ : Nat => LargeObject)
  descriptors : Nat → List Descriptor
  /-- Something was ended that was not current. -/
  disordered : Bool

/-- What `lo_close` does to a descriptor. -/
def Descriptor.close (ok : Bool) (d : Descriptor) : Descriptor :=
  { d with isOpen := d.isOpen && !ok, closes := ok :: d.closes }

/-- How the server answers: the call succeeds, it is an error, by which a block becomes unusable, or it is not even
sent. -/
inductive Reply where
  | done
  | error
  | unsent
  deriving DecidableEq, Repr

/-- The answer where the server does not know the descriptor. -/
def Reply.refused : Reply → Reply
  | .done => .error
  | .error => .error
  | .unsent => .unsent

namespace State

variable {DB : Type}

/-- The connection of a transaction is set. -/
def live (s : State DB) (t : Addr) : Bool := (s.object t).any Object.connected

/-- The current transaction, if it is in a block. -/
def currentBlock (s : State DB) : Option Addr :=
  s.current.filter fun a => (s.object a).any fun o => o.role != .autocommitTransaction

end State

/-- The handle that a call drops. -/
def Call.dropped {DB : Type} : Call DB → Option Addr
  | .dropHandle t => some t
  | _ => none

namespace LargeObjects

variable {DB : Type}

/-- A connection just created. -/
def init (db : DB) : LargeObjects DB := ⟨State.init db, ∅, fun _ => [], false⟩

def object (s : LargeObjects DB) (x : Nat) : Option LargeObject := s.objects.lookup x

/-- `m_transaction` -/
def transactionOf (s : LargeObjects DB) (x : Nat) : Option Addr := (s.object x).bind LargeObject.transaction

/-- The number of large objects that refer to a transaction. -/
def references (s : LargeObjects DB) (t : Addr) : Nat := s.objects.entries.countP fun e => e.2.transaction = some t

/-- The number is that of an open descriptor. -/
def known (s : LargeObjects DB) (fd : Nat) : Bool := (s.descriptors fd).head?.any Descriptor.isOpen

/-- The server may give the number to a descriptor, after the latest one that had it. -/
def mayGive (s : LargeObjects DB) (fd : Nat) : Bool :=
  (s.descriptors fd).head?.all fun d =>
    !d.isOpen && (d.closes.contains true || s.disordered || d.block.all fun a => !s.state.live a)

/-! ### The functions of libpq -/

def onState {α : Type} (x : Prog DB α) : Exec (LargeObjects DB) Exn α :=
  Exec.zoom LargeObjects.state (fun s l => { l with state := s }) x

/-- Call a function of libpq. -/
def answer : Reply → Exec (LargeObjects DB) Exn Bool
  | .done => return true
  | .error => do
    onState (onConnection (Exec.modify fun c => { c with pg := { c.pg with session := c.pg.session.fail } }))
    return false
  | .unsent => return false

/-- Call a function of libpq with the number of a descriptor. -/
def answerFor (fd : Nat) (r : Reply) : Exec (LargeObjects DB) Exn Bool := do
  let s ← Exec.get
  answer (if s.known fd then r else r.refused)

/-- `lo_open`.  The descriptor gets the number `fd`. -/
def loOpen (t : Addr) (r : Reply) (fd : Nat) : Exec (LargeObjects DB) Exn (Option Nat) := do
  if ← answer r then
    Exec.modify fun s => { s with
      descriptors := Function.update s.descriptors fd (⟨t, s.state.currentBlock, true, []⟩ :: s.descriptors fd) }
    return some fd
  else return none

/-- `lo_close` -/
def loClose (fd : Nat) (r : Reply) : Exec (LargeObjects DB) Exn Bool := do
  let ok ← answerFor fd r
  Exec.modify fun s => { s with
    descriptors := Function.update s.descriptors fd ((s.descriptors fd).modifyHead (Descriptor.close ok)) }
  return ok

/-! ### `large_object` -/

def deref (x : Nat) : Exec (LargeObjects DB) Exn LargeObject := fun s =>
  match s.object x with
  | some k => .ret k s
  | none => .undefined

def put (x : Nat) (k : LargeObject) : Exec (LargeObjects DB) Exn Unit :=
  Exec.modify fun s => { s with objects := s.objects.insert x k }

/-- `transaction->connection()->underlying_raw_ptr()` -/
def underlyingRawPtr (t : Addr) : Exec (LargeObjects DB) Exn Unit := onState (derefConnection t)

variable (W : World)

/-- The shared pointer lets go of its transaction, with `reset` or in its destructor. -/
def resetTransaction (x : Nat) : Exec (LargeObjects DB) Exn Unit := do
  let k ← deref x
  put x { k with transaction := none }
  match k.transaction with
  | some t => onState (dropHandle W t)
  | none => return ()

/-- `large_object( transaction, id, m )` -/
def openObject (t : Addr) (x : Nat) (r : Reply) (fd : Nat) : Exec (LargeObjects DB) Exn Unit := do
  onState (hold t)
  underlyingRawPtr t
  match ← loOpen t r fd with
  | some fd => put x ⟨some t, fd⟩
  | none =>
    -- the copy of the shared pointer is destroyed
    onState (dropHandle W t)
    Exec.throw (.runtimeError "tao::pq::large_object::open() failed")

/-- `large_object( large_object&& other )` -/
def moveConstruct (x other : Nat) : Exec (LargeObjects DB) Exn Unit := do
  let k ← deref other
  put other { k with transaction := none }
  put x k

/-- `large_object::close` -/
def close (x : Nat) (r : Reply) : Exec (LargeObjects DB) Exn Unit := do
  let k ← deref x
  match k.transaction with
  | some t =>
    underlyingRawPtr t
    if ← loClose k.fd r then resetTransaction W x
    else Exec.throw (.runtimeError "tao::pq::large_object::close() failed")
  | none => return ()

/-- `large_object::operator=( large_object&& rhs )` -/
def moveAssign (x rhs : Nat) (r : Reply) : Exec (LargeObjects DB) Exn Unit := do
  close W x r
  let k ← deref rhs
  put rhs { k with transaction := none }
  put x k

/-- `~large_object`, and the destruction of the member. -/
def destroy (x : Nat) (r : Reply) : Exec (LargeObjects DB) Exn Unit := do
  Exec.catchAll (close W x r) fun _ => return ()
  resetTransaction W x
  Exec.modify fun s => { s with objects := s.objects.erase x }

/-- The functions of an open large object, which differ in what they ask of the server. -/
inductive Operation where
  | read
  | write
  | resize
  | seek
  | tell
  deriving DecidableEq, Repr

/-- How a function begins its message when it fails. -/
def Operation.what : Operation → String
  | .read => "tao::pq::large_object::read() failed"
  | .write => "tao::pq::large_object::write() failed"
  | .resize => "tao::pq::large_object::resize() failed"
  | .seek => "tao::pq::large_object::seek() failed"
  | .tell => "tao::pq::large_object::tell() failed"

/-- `large_object::read`, `write`, `resize`, `seek` and `tell` -/
def operate (f : Operation) (x : Nat) (r : Reply) : Exec (LargeObjects DB) Exn Unit := do
  let k ← deref x
  match k.transaction with
  | some t =>
    underlyingRawPtr t
    if ← answerFor k.fd r then return () else Exec.throw (.runtimeError f.what)
  | none => Exec.undefined

/-! ### Runs -/

/-- What can happen next: a call of a program, a use of a large object, or the server closes a descriptor. -/
inductive Action (DB : Type) where
  | call (c : Call DB)
  | openObject (t : Addr) (x : Nat) (r : Reply) (fd : Nat)
  | moveConstruct (x other : Nat)
  | moveAssign (x rhs : Nat) (r : Reply)
  | close (x : Nat) (r : Reply)
  | operate (f : Operation) (x : Nat) (r : Reply)
  | destroy (x : Nat) (r : Reply)
  | serverCloses (fd : Nat)

def perform : Action DB → Exec (LargeObjects DB) Exn Unit
  | .call c => do
    Exec.modify fun s => { s with disordered := s.disordered || !decide (c.InOrder s.state) }
    onState (TaoPQ.perform W c)
  | .openObject t x r fd => openObject W t x r fd
  | .moveConstruct x other => moveConstruct x other
  | .moveAssign x rhs r => moveAssign W x rhs r
  | .close x r => close W x r
  | .operate f x r => operate f x r
  | .destroy x r => destroy W x r
  | .serverCloses fd => Exec.modify fun s =>
    { s with
      descriptors := Function.update s.descriptors fd
        ((s.descriptors fd).modifyHead fun d => { d with isOpen := false }) }

/-- An action that the language and the server allow.  A program drops its own handles only, and not those in large
objects. -/
def Legal (s : LargeObjects DB) : Action DB → Prop
  | .call c => c.Legal s.state ∧ ∀ t ∈ c.dropped, s.references t < s.state.held.count t
  | .openObject t x r fd => s.state.holdsTransaction t ∧ s.object x = none ∧ (r = .done → s.mayGive fd = true)
  | .moveConstruct x other => s.object x = none ∧ (s.object other).isSome
  | .moveAssign x rhs _ => (s.object x).isSome ∧ (s.object rhs).isSome
  | .close x _ => (s.object x).isSome
  | .operate _ x _ => (s.transactionOf x).isSome
  | .destroy x _ => (s.object x).isSome
  | .serverCloses fd => s.known fd = true

instance (s : LargeObjects DB) : (a : Action DB) → Decidable (Legal s a)
  | .call c => inferInstanceAs (Decidable (c.Legal s.state ∧ ∀ t ∈ c.dropped, s.references t < s.state.held.count t))
  | .openObject t x r fd =>
    inferInstanceAs (Decidable (s.state.holdsTransaction t ∧ s.object x = none ∧ (r = .done → s.mayGive fd = true)))
  | .moveConstruct x other => inferInstanceAs (Decidable (s.object x = none ∧ (s.object other).isSome = true))
  | .moveAssign x rhs _ => inferInstanceAs (Decidable ((s.object x).isSome = true ∧ (s.object rhs).isSome = true))
  | .close x _ => inferInstanceAs (Decidable ((s.object x).isSome = true))
  | .operate _ x _ => inferInstanceAs (Decidable ((s.transactionOf x).isSome = true))
  | .destroy x _ => inferInstanceAs (Decidable ((s.object x).isSome = true))
  | .serverCloses fd => inferInstanceAs (Decidable (s.known fd = true))

/-- A step of a run. -/
def step (s : LargeObjects DB) (a : Action DB) : Option (LargeObjects DB) :=
  if Legal s a then (perform W a s).stateLeft else none

/-- The states reached by actions that `ok` accepts. -/
abbrev Reaches (db : DB) (ok : LargeObjects DB → Action DB → Prop) : LargeObjects DB → Prop :=
  Run (.init db) (step W) ok

end LargeObjects

end TaoPQ
