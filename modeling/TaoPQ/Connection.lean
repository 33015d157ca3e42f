import TaoPQ.Lib.Exec
import TaoPQ.Libpq

/-!
# The connection

The private functions of `connection` by which transactions, pipelines, table readers and table writers talk to
libpq (`connection.cpp`), and the part of `transaction_base::get_result` and of `pq::result` that follows the order
check.  They work on the libpq connection alone: the current transaction and the transaction objects come with
`TaoPQ.Transaction`.
-/

namespace TaoPQ

/-- The text of an exception: fixed by taoPQ, or `PQerrorMessage`. -/
inductive What where
  | text (s : String)
  | libpq
  deriving DecidableEq, Repr

/-- The exceptions that taoPQ throws.  `user` stands for what a notification handler throws. -/
inductive Exn where
  | logicError (what : String)
  | runtimeError (what : String)
  | error (what : What)
  | connectionError (what : What)
  | timeoutReached (what : String)
  | invalidArgument (what : String)
  | sqlError (r : PGresult)
  | user
  deriving DecidableEq, Repr

/-- The functions of libpq that are called. -/
inductive LibpqCall where
  | sendQueryParams
  | sendQueryPrepared
  | sendPrepare
  | getResult
  | setSingleRowMode
  | setChunkedRowsMode
  | cancel
  | getCopyData
  | putCopyData
  | putCopyEnd
  | transactionStatus
  | enterPipelineMode
  | exitPipelineMode
  | pipelineSync
  deriving DecidableEq, Repr

/-- The data members of `connection` that matter here, apart from the current transaction: `m_pgconn` and
`m_prepared_statements`.  `calls` records the calls of libpq, latest first. -/
structure Connection (DB : Type) where
  pg : PGconn DB
  prepared : List String
  calls : List LibpqCall

namespace Connection

variable {DB : Type}

/-- A connection just opened to a database with the content `db`. -/
def init (db : DB) : Connection DB := ⟨PGconn.init db, [], []⟩

/-- Call a function of libpq. -/
def libpq {β : Type} (call : LibpqCall) (f : PGconn DB → PGconn DB × β) : Exec (Connection DB) Exn β := fun c =>
  .ret (f c.pg).2 { c with pg := (f c.pg).1, calls := call :: c.calls }

/-- Call a function of libpq that reports success or failure. -/
def libpqOr (call : LibpqCall) (f : PGconn DB → PGconn DB × Bool) (e : Exn) : Exec (Connection DB) Exn Unit := do
  let ok ← libpq call f
  if ok then pure () else Exec.throw e

/-- `connection::transaction_status` -/
def transactionStatus : Exec (Connection DB) Exn TransactionStatus :=
  libpq .transactionStatus fun c => (c, c.transactionStatus)

/-- `connection::attempt_rollback` -/
def attemptRollback : Exec (Connection DB) Exn Bool := do
  match ← transactionStatus with
  | .idle | .active => return false
  | .inTransaction | .error | .unknown => return true

variable (W : World)

/-- `connection::send_params` -/
def sendParams (cmd : Command DB) : Exec (Connection DB) Exn Unit := do
  let c ← Exec.get
  let isPrepared := c.prepared.contains cmd.text
  let call := if isPrepared then LibpqCall.sendQueryPrepared else LibpqCall.sendQueryParams
  libpqOr call (PGconn.send W isPrepared cmd) (.connectionError .libpq)

/-- `connection::wait`: a timeout and a broken connection end the use of the connection. -/
def wait : Exec (Connection DB) Exn Unit := fun c =>
  match W.wait c.pg.clock with
  | .ready => .ret () { c with pg := c.pg.tick }
  | .timeout => .throw (.timeoutReached "timeout reached") { c with pg := c.pg.tick.close }
  | .broken => .throw (.connectionError .libpq) { c with pg := c.pg.tick.close }
  | .handler => .throw .user { c with pg := c.pg.tick }

/-- The loops around `wait`: one wait stands for all of them, since it says how the waiting ends. -/
def waitWhen (busy : PGconn DB → Bool) : Exec (Connection DB) Exn Unit := do
  let c ← Exec.get
  if busy c.pg then wait W else pure ()

/-- `connection::handle_notifications` -/
def handleNotifications : Exec (Connection DB) Exn Unit := fun c =>
  if W.handlerThrows c.pg.clock then .throw .user { c with pg := c.pg.tick }
  else .ret () { c with pg := c.pg.tick }

/-- `connection::get_result` -/
def getResult : Exec (Connection DB) Exn (Option PGresult) := do
  waitWhen W PGconn.isBusy
  let r ← libpq .getResult PGconn.getResult
  handleNotifications W
  return r

/-- `connection::get_fatal_error` -/
def getFatalError : Exec (Connection DB) Exn PGresult := do
  match ← getResult W with
  | none => Exec.throw (.runtimeError "unable to obtain result")
  | some r =>
    if r.status = .fatalError then return r
    else Exec.throw (.runtimeError ("unexpected result status: " ++ r.status.text))

/-- `connection::consume_empty_result` -/
def consumeEmptyResult : Exec (Connection DB) Exn Unit := do
  match ← getResult W with
  | none => return ()
  | some r => Exec.throw (.runtimeError ("unexpected result status: " ++ r.status.text))

/-- `connection::cancel` -/
def cancel : Exec (Connection DB) Exn Unit :=
  libpqOr .cancel (PGconn.cancel W) (.error .libpq)

/-- `connection::get_copy_data`: a row, or nothing at the end of the data. -/
def getCopyData : Exec (Connection DB) Exn (Option Chunk) := do
  waitWhen W PGconn.isBusy
  match ← libpq .getCopyData PGconn.getCopyData with
  | .row data => return some data
  | .done => return none
  | .failed => Exec.throw (.error .libpq)

/-- `connection::put_copy_data` -/
def putCopyData (data : Chunk) : Exec (Connection DB) Exn Unit := do
  waitWhen W fun c => c.isOpen && c.inCopy
  libpqOr .putCopyData (fun c => c.putCopyData (passed data)) (.error .libpq)

/-- `connection::put_copy_end` -/
def putCopyEnd (errorMessage : Option String) : Exec (Connection DB) Exn Unit := do
  waitWhen W fun c => c.isOpen && c.inCopy
  libpqOr .putCopyEnd (fun c => c.putCopyEnd errorMessage) (.error .libpq)

/-- The number of rows that a COPY TO has still to deliver. -/
def rowsPending (c : Connection DB) : Nat :=
  match c.pg.stream with
  | .copyOut _ rows :: _ => rows.length
  | _ => 0

/-- The loop of `connection::clear_copy_data`, with a bound on its number of rounds. -/
def clearCopyDataLoop : Nat → Exec (Connection DB) Exn Unit
  | 0 => pure ()
  | n + 1 => do
    match ← getCopyData W with
    | some _ => clearCopyDataLoop n
    | none => pure ()

/-- `connection::clear_copy_data` -/
def clearCopyData : Exec (Connection DB) Exn Unit := do
  let c ← Exec.get
  clearCopyDataLoop W (rowsPending c + 1)

/-- `connection::enter_pipeline_mode` -/
def enterPipelineMode : Exec (Connection DB) Exn Unit :=
  libpqOr .enterPipelineMode PGconn.enterPipelineMode (.connectionError (.text "unable to enter pipeline mode"))

/-- `connection::exit_pipeline_mode` -/
def exitPipelineMode : Exec (Connection DB) Exn Unit :=
  libpqOr .exitPipelineMode PGconn.exitPipelineMode (.connectionError .libpq)

/-- `connection::pipeline_sync` -/
def pipelineSync : Exec (Connection DB) Exn Unit :=
  libpqOr .pipelineSync PGconn.pipelineSync (.connectionError (.text "unable to sync pipeline"))

/-- The constructor of `pq::result`: a result that is an error is thrown. -/
def result (r : PGresult) : Exec (Connection DB) Exn PGresult :=
  match r.status with
  | .commandOk | .tuplesOk | .singleTuple | .tuplesChunk | .pipelineSync | .pipelineAborted => return r
  | .emptyQuery => Exec.throw (.runtimeError "unexpected empty query")
  | .copyIn | .copyOut => Exec.undefined
  | .fatalError => Exec.throw (.sqlError r)

/-- `transaction_base::get_result`, after the order check. -/
def fetchResult : Exec (Connection DB) Exn PGresult := do
  match ← getResult W with
  | none => Exec.throw (.runtimeError "unable to obtain result")
  | some r =>
    match r.status with
    | .copyIn =>
      putCopyEnd W (some "unexpected COPY FROM statement")
      let r ← getFatalError W
      consumeEmptyResult W
      result r
    | .copyOut =>
      cancel W
      clearCopyData W
      let _ ← getFatalError W
      consumeEmptyResult W
      Exec.throw (.runtimeError "unexpected COPY TO statement")
    | .singleTuple | .tuplesChunk => result r
    | _ =>
      consumeEmptyResult W
      result r

/-- `transaction_base::consume_pipeline_sync`, after the order check. -/
def fetchPipelineSync : Exec (Connection DB) Exn Unit := do
  match ← getResult W with
  | none => Exec.throw (.runtimeError "unable to obtain result")
  | some r =>
    if r.status = .pipelineSync then return ()
    else Exec.throw (.runtimeError ("unexpected result status: " ++ r.status.text))

/-- `transaction_base::set_single_row_mode`, after the order check. -/
def setSingleRowMode : Exec (Connection DB) Exn Unit :=
  libpqOr .setSingleRowMode PGconn.setSingleRowMode (.runtimeError "unable to switch to single row mode")

/-- `transaction_base::set_chunk_mode`, after the order check. -/
def setChunkMode (rows : Int) : Exec (Connection DB) Exn Unit :=
  libpqOr .setChunkedRowsMode (PGconn.setChunkedRowsMode rows) (.runtimeError "unable to switch to chunk mode")

/-- `internal::is_identifier` -/
def isIdentifier (value : String) : Bool :=
  match value.toList with
  | [] => false
  | c :: cs => !c.isDigit && (c :: cs).all fun c => c.isAlphanum || c == '_'

/-- `connection::check_prepared_name` -/
def checkPreparedName (name : String) : Exec (Connection DB) Exn Unit :=
  if isIdentifier name then pure ()
  else Exec.throw (.invalidArgument ("invalid prepared statement name: " ++ name))

/-- `internal::throw_sqlstate`: without an SQLSTATE, a plain `std::runtime_error`. -/
def throwSqlstate {α : Type} (r : Option PGresult) : Exec (Connection DB) Exn α :=
  match r with
  | some r => Exec.throw (.sqlError r)
  | none => Exec.throw (.runtimeError "")

/-- `PQresultStatus`, also of a null pointer. -/
def statusOf : Option PGresult → ExecStatus
  | some r => r.status
  | none => .fatalError

/-- `connection::prepare` -/
def prepare (name : String) (valid : Bool) : Exec (Connection DB) Exn Unit := do
  checkPreparedName name
  libpqOr .sendPrepare (PGconn.sendPrepare name valid) (.connectionError .libpq)
  let r ← getResult W
  match statusOf r with
  | .commandOk => consumeEmptyResult W
  | .tuplesOk | .emptyQuery | .copyIn | .copyOut => Exec.undefined
  | _ =>
    consumeEmptyResult W
    throwSqlstate r
  Exec.modify fun c => { c with prepared := if c.prepared.contains name then c.prepared else name :: c.prepared }

end Connection

end TaoPQ
