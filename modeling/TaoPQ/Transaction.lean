import Mathlib.Data.List.AList
import TaoPQ.Connection

/-!
# Transaction objects

The classes `transaction_base`, `transaction`, `internal::transaction_base`, `autocommit_transaction`,
`top_level_transaction`, `internal::subtransaction_base`, `top_level_subtransaction`, `nested_subtransaction`,
`transaction_guard` and `pipeline` (`transaction_base.cpp`, `transaction.hpp`, `transaction.cpp`, `connection.cpp`,
`pipeline.cpp`), over a heap of objects that are owned by shared pointers.

An object is destroyed when its last owner lets go of it (`release`): the owners are the handles of the program, the
`m_previous` of other objects, and the members of table readers and writers.  `m_current_transaction` is a raw
pointer, and may dangle.  Dereferencing it, or a null `m_connection`, is then undefined behaviour (`Exec.undefined`).
-/

namespace TaoPQ

/-- The class of an object, with its `m_previous`. -/
inductive Role where
  | autocommitTransaction
  | topLevelTransaction
  | topLevelSubtransaction (previous : Addr)
  | nestedSubtransaction (previous : Addr)
  | transactionGuard (previous : Addr)
  | pipeline (previous : Option Addr)
  deriving DecidableEq, Repr

/-- What `m_previous` owns.  The two classes derived from `internal::transaction_base` have no such member. -/
def Role.previous : Role → Option Addr
  | .autocommitTransaction => none
  | .topLevelTransaction => none
  | .topLevelSubtransaction p => some p
  | .nestedSubtransaction p => some p
  | .transactionGuard p => some p
  | .pipeline p => p

/-- The object opens a transaction block on the server, and ends it. -/
def Role.ownsBlock : Role → Bool
  | .topLevelTransaction => true
  | .topLevelSubtransaction _ => true
  | _ => false

def Role.isPipeline : Role → Bool
  | .pipeline _ => true
  | _ => false

/-- A living object: its class, and whether its `m_connection` is set. -/
structure Object where
  role : Role
  connected : Bool
  deriving DecidableEq, Repr

/-- A `table_reader` or a `table_writer`: `m_previous`, `m_transaction`, and for a reader `m_columns` and
`m_buffer`. -/
structure Bulk where
  reader : Bool
  previous : Option Addr
  transaction : Option Addr
  columns : Nat
  buffer : Option Chunk
  deriving DecidableEq, Repr

/-- A connection with everything that refers to it: the current transaction, the living objects, the handles that
the program holds, and its table readers and writers. -/
structure State (DB : Type) where
  conn : Connection DB
  current : Option Addr
  objects : AList (fun _ : Addr => Object)
  held : List Addr
  bulks : AList (fun _ : Nat => Bulk)

namespace State

variable {DB : Type}

/-- A connection just created. -/
def init (db : DB) : State DB := ⟨Connection.init db, none, ∅, [], ∅⟩

def object (s : State DB) (a : Addr) : Option Object := s.objects.lookup a

def bulk (s : State DB) (b : Nat) : Option Bulk := s.bulks.lookup b

/-- No shared pointer owns the object. -/
def unowned (s : State DB) (a : Addr) : Bool :=
  !s.held.contains a &&
    s.objects.keys.all (fun x => (s.object x).all fun o => o.role.previous != some a) &&
    s.bulks.keys.all (fun b => (s.bulk b).all fun k => k.previous != some a && k.transaction != some a)

end State

/-- Code that runs on a connection and its objects. -/
abbrev Prog (DB α : Type) := Exec (State DB) Exn α

variable {DB : Type}

def onConnection {α : Type} (x : Exec (Connection DB) Exn α) : Prog DB α :=
  Exec.zoom State.conn (fun c s => { s with conn := c }) x

def setCurrent (p : Option Addr) : Prog DB Unit := Exec.modify fun s => { s with current := p }

def putObject (a : Addr) (o : Object) : Prog DB Unit :=
  Exec.modify fun s => { s with objects := s.objects.insert a o }

def eraseObject (a : Addr) : Prog DB Unit := Exec.modify fun s => { s with objects := s.objects.erase a }

def putBulk (b : Nat) (k : Bulk) : Prog DB Unit := Exec.modify fun s => { s with bulks := s.bulks.insert b k }

/-- Follow a pointer to an object. -/
def deref (a : Addr) : Prog DB Object := fun s =>
  match s.object a with
  | some o => .ret o s
  | none => .undefined

def derefBulk (b : Nat) : Prog DB Bulk := fun s =>
  match s.bulk b with
  | some k => .ret k s
  | none => .undefined

/-- Follow a pointer that may be null. -/
def derefPointer (p : Option Addr) : Prog DB Addr :=
  match p with
  | some a => do
    let _ ← deref a
    return a
  | none => Exec.undefined

/-- Follow the `m_connection` of an object. -/
def derefConnection (a : Addr) : Prog DB Unit := do
  let o ← deref a
  if o.connected then pure () else Exec.undefined

/-! ### `transaction_base` -/

/-- `transaction_base::check_current_transaction` -/
def checkCurrentTransaction (a : Addr) : Prog DB Unit := do
  let o ← deref a
  let s ← Exec.get
  if o.connected = true ∧ s.current = some a then pure ()
  else Exec.throw (.logicError "invalid transaction order")

variable (W : World)

/-- `transaction_base::send` -/
def send (a : Addr) (cmd : Command DB) : Prog DB Unit := do
  checkCurrentTransaction a
  onConnection (Connection.sendParams W cmd)

/-- `transaction_base::set_single_row_mode` -/
def setSingleRowMode (a : Addr) : Prog DB Unit := do
  checkCurrentTransaction a
  onConnection Connection.setSingleRowMode

/-- `transaction_base::set_chunk_mode` -/
def setChunkMode (a : Addr) (rows : Int) : Prog DB Unit := do
  checkCurrentTransaction a
  onConnection (Connection.setChunkMode rows)

/-- `transaction_base::get_result` -/
def getResult (a : Addr) : Prog DB PGresult := do
  checkCurrentTransaction a
  onConnection (Connection.fetchResult W)

/-- `transaction_base::consume_pipeline_sync` -/
def consumePipelineSync (a : Addr) : Prog DB Unit := do
  checkCurrentTransaction a
  onConnection (Connection.fetchPipelineSync W)

/-- `transaction::execute` -/
def execute (a : Addr) (cmd : Command DB) : Prog DB PGresult := do
  send W a cmd
  getResult W a

/-! ### `transaction` -/

/-- `v_commit` -/
def vCommit (a : Addr) : Prog DB Unit := do
  let o ← deref a
  match o.role with
  | .topLevelTransaction | .topLevelSubtransaction _ =>
    let _ ← execute W a (.control .commitTransaction)
  | .nestedSubtransaction _ =>
    let _ ← execute W a (.control (.releaseSavepoint a))
  | .autocommitTransaction | .transactionGuard _ | .pipeline _ => pure ()

/-- `v_rollback` -/
def vRollback (a : Addr) : Prog DB Unit := do
  let o ← deref a
  match o.role with
  | .topLevelTransaction | .topLevelSubtransaction _ =>
    let _ ← execute W a (.control .rollbackTransaction)
  | .nestedSubtransaction _ =>
    let _ ← execute W a (.control (.rollbackTo a))
  | .autocommitTransaction | .transactionGuard _ | .pipeline _ => pure ()

/-- `v_reset`: `current_transaction()` follows `m_connection`, and `m_connection` is reset. -/
def vReset (a : Addr) : Prog DB Unit := do
  derefConnection a
  let o ← deref a
  setCurrent o.role.previous
  putObject a { o with connected := false }

/-- The common shape of `commit` and `rollback`: the object is reset in any case, also when the order check fails. -/
def endWith (a : Addr) (x : Prog DB Unit) : Prog DB Unit := do
  Exec.catchAll
    (do
      checkCurrentTransaction a
      x)
    (fun e => do
      vReset a
      Exec.throw e)
  vReset a

/-- `transaction::commit` -/
def commit (a : Addr) : Prog DB Unit := endWith a (vCommit W a)

/-- `transaction::rollback` -/
def rollback (a : Addr) : Prog DB Unit := endWith a (vRollback W a)

/-- `transaction::rollback_in_dtor`.  Its handler looks at the log of the connection. -/
def rollbackInDtor (a : Addr) : Prog DB Unit := do
  Exec.catchAll
    (do
      checkCurrentTransaction a
      vRollback W a)
    (fun _ => derefConnection a)
  vReset a

/-! ### Destructors -/

/-- `~transaction_base` of `connection.cpp`, and `~subtransaction_base`. -/
def deregister (a : Addr) : Prog DB Unit := do
  let o ← deref a
  if o.connected then setCurrent o.role.previous

/-- `pipeline::finish`.  The reference that `m_previous` gives up is released last, also when leaving the pipeline
mode fails. -/
def finishWith (release : Addr → Prog DB Unit) (a : Addr) : Prog DB Unit := do
  let o ← deref a
  match o.role with
  | .pipeline (some p) =>
    setCurrent (some p)
    putObject a { o with role := .pipeline none }
    Exec.andFinally (onConnection Connection.exitPipelineMode) (release p)
  | _ => pure ()

/-- The destructors of `top_level_transaction`, `top_level_subtransaction` and `nested_subtransaction`. -/
def attemptRollbackInDtor (a : Addr) : Prog DB Unit := do
  let o ← deref a
  if o.connected then do
    let attempt ← onConnection Connection.attemptRollback
    if attempt then rollbackInDtor W a else pure ()
  else pure ()

/-- The body of the destructor of an object, derived classes first. -/
def destructor (release : Addr → Prog DB Unit) (a : Addr) : Prog DB Unit := do
  let o ← deref a
  match o.role with
  | .topLevelTransaction | .topLevelSubtransaction _ | .nestedSubtransaction _ =>
    attemptRollbackInDtor W a
    deregister a
  | .autocommitTransaction | .transactionGuard _ => deregister a
  | .pipeline _ => Exec.catchAll (finishWith release a) (fun _ => pure ())

/-- A shared pointer to the object is gone.  If it was the last one, the object is destroyed, and then the reference
that its `m_previous` holds is released in turn. -/
def releaseN : Nat → Addr → Prog DB Unit
  | 0, _ => pure ()
  | n + 1, a => do
    let s ← Exec.get
    if s.unowned a then
      destructor W (releaseN n) a
      let o ← deref a
      eraseObject a
      match o.role.previous with
      | some p => releaseN n p
      | none => pure ()

/-- No chain of releases is longer than the number of living objects. -/
def release (a : Addr) : Prog DB Unit := do
  let s ← Exec.get
  releaseN W s.objects.keys.length a

/-- `pipeline::finish` -/
def finish (a : Addr) : Prog DB Unit := finishWith (release W) a

/-- The program gets a handle. -/
def hold (a : Addr) : Prog DB Unit := Exec.modify fun s => { s with held := a :: s.held }

/-- The program drops a handle. -/
def dropHandle (a : Addr) : Prog DB Unit := do
  Exec.modify fun s => { s with held := s.held.erase a }
  release W a

/-! ### Constructors -/

/-- The constructor of `internal::transaction_base`. -/
def newTransactionBase (a : Addr) (role : Role) : Prog DB Unit := do
  let s ← Exec.get
  if s.current.isSome then Exec.throw (.logicError "invalid transaction order")
  putObject a ⟨role, true⟩
  setCurrent (some a)

/-- `connection::direct` -/
def direct (a : Addr) : Prog DB Unit := do
  newTransactionBase a .autocommitTransaction
  hold a

/-- `connection::transaction` -/
def transaction (a : Addr) (il : IsolationLevel) (am : AccessMode) : Prog DB Unit := do
  newTransactionBase a .topLevelTransaction
  let _ ← Exec.catchAll (execute W a (.control (.startTransaction il am)))
    (fun e => do
      deregister a
      eraseObject a
      Exec.throw e)
  hold a

/-- The constructor of `internal::subtransaction_base`. -/
def newSubtransactionBase (a : Addr) (role : Addr → Role) : Prog DB Unit := do
  let s ← Exec.get
  let p ← derefPointer s.current
  putObject a ⟨role p, true⟩
  setCurrent (some a)

/-- What is destroyed when a class derived from `internal::subtransaction_base` fails to construct. -/
def unwindSubtransaction (a : Addr) : Prog DB Unit := do
  deregister a
  let o ← deref a
  eraseObject a
  match o.role.previous with
  | some p => release W p
  | none => pure ()

/-- The constructors of `top_level_subtransaction` and of `nested_subtransaction`. -/
def newSubtransaction (a : Addr) (role : Addr → Role) (k : Control) : Prog DB Unit := do
  newSubtransactionBase a role
  let _ ← Exec.catchAll (execute W a (.control k))
    (fun e => do
      unwindSubtransaction W a
      Exec.throw e)
  hold a

/-- `transaction::subtransaction` -/
def subtransaction (o a : Addr) : Prog DB Unit := do
  checkCurrentTransaction o
  let x ← deref o
  if x.role = .autocommitTransaction then
    newSubtransaction W a .topLevelSubtransaction
      (.startTransaction .defaultIsolationLevel .defaultAccessMode)
  else newSubtransaction W a .nestedSubtransaction (.savepoint a)

/-- `transaction::pipeline` -/
def pipeline (o a : Addr) : Prog DB Unit := do
  checkCurrentTransaction o
  let s ← Exec.get
  let p ← derefPointer s.current
  onConnection Connection.enterPipelineMode
  putObject a ⟨.pipeline (some p), true⟩
  setCurrent (some a)
  hold a

/-- `connection::pipeline`: the direct transaction is a temporary object. -/
def connectionPipeline (d a : Addr) : Prog DB Unit := do
  direct d
  Exec.andFinally (pipeline d a) (dropHandle W d)

/-- `connection::execute` -/
def connectionExecute (d : Addr) (cmd : Command DB) : Prog DB PGresult := do
  direct d
  Exec.andFinally (execute W d cmd) (dropHandle W d)

/-- `connection::deallocate` -/
def deallocate (d : Addr) (name : String) : Prog DB Unit := do
  onConnection (Connection.checkPreparedName name)
  let s ← Exec.get
  if s.conn.prepared.contains name then
    let _ ← connectionExecute W d (.deallocate name)
    Exec.modify fun s => { s with conn := { s.conn with prepared := s.conn.prepared.filter (· != name) } }
  else Exec.throw (.runtimeError ("prepared statement not found: " ++ name))

/-! ### `pipeline` -/

/-- `pipeline::sync` -/
def pipelineSync (a : Addr) : Prog DB Unit := do
  derefConnection a
  onConnection Connection.pipelineSync

/-- `pipeline::consume_sync`: the call goes to the current transaction. -/
def consumeSync (a : Addr) : Prog DB Unit := do
  derefConnection a
  let s ← Exec.get
  let p ← derefPointer s.current
  consumePipelineSync W p

end TaoPQ
