import TaoPQ.Lib.Savepoints

/-!
# The server session

The part of PostgreSQL that the library relies on: transaction blocks and savepoints.  A session is outside a block,
where every statement commits by itself, or inside a block, which has failed or not, which holds the content the
session sees, and which carries a stack of named savepoints.  `Session.control` executes the statements by which a
block is opened, ended and nested, `Session.run` a statement of the user.

The statements are those of `connection.cpp` and `transaction.cpp`, with their texts.
-/

namespace TaoPQ

/-- The address of a transaction object. -/
abbrev Addr := Nat

/-- `enum class isolation_level` -/
inductive IsolationLevel where
  | defaultIsolationLevel
  | serializable
  | repeatableRead
  | readCommitted
  | readUncommitted
  deriving DecidableEq, Repr

/-- `enum class access_mode` -/
inductive AccessMode where
  | defaultAccessMode
  | readWrite
  | readOnly
  deriving DecidableEq, Repr

def isolationLevelExtension : IsolationLevel → String
  | .defaultIsolationLevel => ""
  | .serializable => " ISOLATION LEVEL SERIALIZABLE"
  | .repeatableRead => " ISOLATION LEVEL REPEATABLE READ"
  | .readCommitted => " ISOLATION LEVEL READ COMMITTED"
  | .readUncommitted => " ISOLATION LEVEL READ UNCOMMITTED"

def accessModeExtension : AccessMode → String
  | .defaultAccessMode => ""
  | .readWrite => " READ WRITE"
  | .readOnly => " READ ONLY"

/-- What `%p` prints for an address.  Different addresses print differently, so the model names a savepoint by the
address itself. -/
def pointerText (a : Addr) : String := "0x" ++ String.ofList (Nat.toDigits 16 a)

/-- The statements that taoPQ itself sends to control transactions. -/
inductive Control where
  | startTransaction (il : IsolationLevel) (am : AccessMode)
  | commitTransaction
  | rollbackTransaction
  | savepoint (name : Addr)
  | releaseSavepoint (name : Addr)
  | rollbackTo (name : Addr)
  deriving DecidableEq, Repr

def Control.text : Control → String
  | .startTransaction il am => "START TRANSACTION" ++ isolationLevelExtension il ++ accessModeExtension am
  | .commitTransaction => "COMMIT TRANSACTION"
  | .rollbackTransaction => "ROLLBACK TRANSACTION"
  | .savepoint a => "SAVEPOINT \"TAOPQ_" ++ pointerText a ++ "\""
  | .releaseSavepoint a => "RELEASE SAVEPOINT \"TAOPQ_" ++ pointerText a ++ "\""
  | .rollbackTo a => "ROLLBACK TO \"TAOPQ_" ++ pointerText a ++ "\""

/-- `ExecStatusType` of libpq. -/
inductive ExecStatus where
  | emptyQuery
  | commandOk
  | tuplesOk
  | copyOut
  | copyIn
  | fatalError
  | singleTuple
  | tuplesChunk
  | pipelineSync
  | pipelineAborted
  deriving DecidableEq, Repr

/-- `PQresStatus` -/
def ExecStatus.text : ExecStatus → String
  | .emptyQuery => "PGRES_EMPTY_QUERY"
  | .commandOk => "PGRES_COMMAND_OK"
  | .tuplesOk => "PGRES_TUPLES_OK"
  | .copyOut => "PGRES_COPY_OUT"
  | .copyIn => "PGRES_COPY_IN"
  | .fatalError => "PGRES_FATAL_ERROR"
  | .singleTuple => "PGRES_SINGLE_TUPLE"
  | .tuplesChunk => "PGRES_TUPLES_CHUNK"
  | .pipelineSync => "PGRES_PIPELINE_SYNC"
  | .pipelineAborted => "PGRES_PIPELINE_ABORTED"

/-- The command tag of a result, as far as it tells what became of a transaction. -/
inductive Tag where
  | start
  | commit
  | rollback
  | savepoint
  | release
  | other
  deriving DecidableEq, Repr

/-- A result: its status, its command tag, its numbers of columns and of rows, and the number of affected rows of
`PQcmdTuples`, if the command reports one. -/
structure PGresult where
  status : ExecStatus
  tag : Tag
  nfields : Nat
  ntuples : Nat
  cmdTuples : Option Nat
  deriving DecidableEq, Repr

/-- A result without rows and without a row count. -/
def PGresult.plain (status : ExecStatus) (tag : Tag) : PGresult := ⟨status, tag, 0, 0, none⟩

/-- An error reported by the server. -/
def PGresult.fatal : PGresult := .plain .fatalError .other

/-- A transaction block: what the session sees, whether a statement has failed in it, and its savepoints. -/
structure Block (DB : Type) where
  content : DB
  failed : Bool
  saves : List (Addr × DB)

/-- A server session: the committed content, the transaction block it is in, if any, and the names of the prepared
statements, which no transaction rolls back. -/
structure Session (DB : Type) where
  committed : DB
  block : Option (Block DB)
  prepared : List String

namespace Session

variable {DB : Type}

/-- The content that the session sees. -/
def content (s : Session DB) : DB :=
  match s.block with
  | none => s.committed
  | some b => b.content

/-- The session is in a block in which a statement has failed. -/
def failed (s : Session DB) : Bool := s.block.any Block.failed

/-- A statement fails: a block it runs in becomes unusable until it is rolled back. -/
def fail (s : Session DB) : Session DB :=
  { s with block := s.block.map fun b => { b with failed := true } }

/-- A statement of the user, which succeeds with the answer `ok` and changes the content by `effect`, or fails. -/
def run (s : Session DB) (effect : DB → Option DB) (ok : PGresult) : Session DB × PGresult :=
  match s.block with
  | none =>
    match effect s.committed with
    | some db => ({ s with committed := db }, ok)
    | none => (s, .fatal)
  | some b =>
    if b.failed then (s, .fatal)
    else
      match effect b.content with
      | some db => ({ s with block := some { b with content := db } }, ok)
      | none => (s.fail, .fatal)

/-- A statement of taoPQ.  `refused` says whether a deferred check fails when a block is committed. -/
def control (s : Session DB) (refused : Bool) (k : Control) : Session DB × PGresult :=
  match k, s.block with
  | .startTransaction _ _, none =>
    ({ s with block := some ⟨s.committed, false, []⟩ }, .plain .commandOk .start)
  | .startTransaction _ _, some b => if b.failed then (s, .fatal) else (s, .plain .commandOk .start)
  | .commitTransaction, none => (s, .plain .commandOk .commit)
  | .commitTransaction, some b =>
    -- a failed block is rolled back, and the answer is nevertheless a success
    if b.failed then ({ s with block := none }, .plain .commandOk .rollback)
    else if refused then ({ s with block := none }, .fatal)
    else ({ s with committed := b.content, block := none }, .plain .commandOk .commit)
  | .rollbackTransaction, _ => ({ s with block := none }, .plain .commandOk .rollback)
  | .savepoint _, none => (s, .fatal)
  | .savepoint a, some b =>
    if b.failed then (s, .fatal)
    else ({ s with block := some { b with saves := (a, b.content) :: b.saves } }, .plain .commandOk .savepoint)
  | .releaseSavepoint _, none => (s, .fatal)
  | .releaseSavepoint a, some b =>
    if b.failed then (s, .fatal)
    else
      match Savepoints.since a b.saves with
      | none => (s.fail, .fatal)
      | some (_, rest) => ({ s with block := some { b with saves := rest } }, .plain .commandOk .release)
  | .rollbackTo _, none => (s, .fatal)
  | .rollbackTo a, some b =>
    match Savepoints.since a b.saves with
    | none => (s.fail, .fatal)
    | some (db, rest) =>
      ({ s with block := some ⟨db, false, (a, db) :: rest⟩ }, .plain .commandOk .rollback)

/-- A statement is prepared under a name, which fails if there is such a statement, or if the text is not `valid`. -/
def prepare (s : Session DB) (name : String) (valid : Bool) : Session DB × PGresult :=
  if s.failed then (s, .fatal)
  else if valid && !s.prepared.contains name then
    ({ s with prepared := name :: s.prepared }, .plain .commandOk .other)
  else (s.fail, .fatal)

/-- `DEALLOCATE` -/
def deallocate (s : Session DB) (name : String) : Session DB × PGresult :=
  if s.failed then (s, .fatal)
  else if s.prepared.contains name then
    ({ s with prepared := s.prepared.filter (· != name) }, .plain .commandOk .other)
  else (s.fail, .fatal)

end Session

end TaoPQ
