import TaoPQ.Transaction

/-!
# Table readers and table writers

The part of `table_reader` and `table_writer` that talks to the connection: the constructors, which block the
connection with a `transaction_guard`, `check_result`, reading and writing of raw rows, and the destructors
(`table_reader.hpp`, `table_reader.cpp`, `table_writer.hpp`, `table_writer.cpp`).
-/

namespace TaoPQ

variable {DB : Type}

/-- The construction of the `transaction_guard`: the constructor of `internal::subtransaction_base` follows the
connection that it is given, and the current transaction of that connection. -/
def newTransactionGuard (o g : Addr) : Prog DB Unit := do
  derefConnection o
  newSubtransactionBase g .transactionGuard

variable (W : World)

/-- `m_transaction.reset()` -/
def resetTransaction (b : Nat) : Prog DB Unit := do
  let k ← derefBulk b
  putBulk b { k with transaction := none }
  match k.transaction with
  | some g => release W g
  | none => pure ()

/-- `m_previous.reset()` -/
def resetPrevious (b : Nat) : Prog DB Unit := do
  let k ← derefBulk b
  putBulk b { k with previous := none }
  match k.previous with
  | some o => release W o
  | none => pure ()

/-- The members are destroyed, last one first. -/
def destroyMembers (b : Nat) : Prog DB Unit := do
  resetTransaction W b
  resetPrevious W b
  Exec.modify fun s => { s with bulks := s.bulks.erase b }

/-- Follow `m_transaction`, and its `m_connection`. -/
def guardOf (b : Nat) : Prog DB Addr := do
  let k ← derefBulk b
  let g ← derefPointer k.transaction
  derefConnection g
  return g

/-- `table_reader::check_result` -/
def readerCheckResult (b : Nat) : Prog DB Unit := do
  let g ← guardOf b
  let r ← onConnection (Connection.getResult W)
  match Connection.statusOf r with
  | .copyOut =>
    let k ← derefBulk b
    putBulk b { k with columns := (r.map PGresult.nfields).getD 0 }
  | .copyIn =>
    let _ ← getResult W g
    Exec.undefined
  | .commandOk | .tuplesOk =>
    onConnection (Connection.consumeEmptyResult W)
    Exec.throw (.runtimeError "expected COPY TO statement")
  | .emptyQuery =>
    onConnection (Connection.consumeEmptyResult W)
    Exec.throw (.runtimeError "unexpected empty query")
  | _ =>
    onConnection (Connection.consumeEmptyResult W)
    onConnection (Connection.throwSqlstate r)

/-- `table_writer::check_result` -/
def writerCheckResult (b : Nat) : Prog DB Unit := do
  let _ ← guardOf b
  let r ← onConnection (Connection.getResult W)
  match Connection.statusOf r with
  | .copyIn => pure ()
  | .copyOut =>
    onConnection (Connection.cancel W)
    onConnection (Connection.clearCopyData W)
    let _ ← onConnection (Connection.getFatalError W)
    onConnection (Connection.consumeEmptyResult W)
    Exec.throw (.runtimeError "unexpected COPY TO statement")
  | .commandOk | .tuplesOk =>
    onConnection (Connection.consumeEmptyResult W)
    Exec.throw (.runtimeError "expected COPY FROM statement")
  | .emptyQuery =>
    onConnection (Connection.consumeEmptyResult W)
    Exec.throw (.runtimeError "unexpected empty query")
  | _ =>
    onConnection (Connection.consumeEmptyResult W)
    onConnection (Connection.throwSqlstate r)

/-- The constructors.  Nothing compares the transaction `o` they are given with the current one. -/
def newBulk (reader : Bool) (o g : Addr) (b : Nat) (u : Statement DB) : Prog DB Unit := do
  newTransactionGuard o g
  putBulk b ⟨reader, some o, some g, 0, none⟩
  Exec.catchAll
    (do
      send W g (.user u)
      if reader then readerCheckResult W b else writerCheckResult W b)
    (fun e => do
      destroyMembers W b
      Exec.throw e)

/-- `table_reader::table_reader` -/
def tableReader (o g : Addr) (b : Nat) (u : Statement DB) : Prog DB Unit := newBulk W true o g b u

/-- `table_writer::table_writer` -/
def tableWriter (o g : Addr) (b : Nat) (u : Statement DB) : Prog DB Unit := newBulk W false o g b u

/-- `table_reader::get_raw_data` -/
def getRawData (b : Nat) : Prog DB (Option Chunk) := do
  let _ ← guardOf b
  let data ← onConnection (Connection.getCopyData W)
  let k ← derefBulk b
  putBulk b { k with buffer := data }
  match data with
  | some row => return some row
  | none =>
    match ← onConnection (Connection.getResult W) with
    | none => onConnection (Connection.throwSqlstate none)
    | some r =>
      let _ ← onConnection (Connection.result r)
      resetTransaction W b
      resetPrevious W b
      return none

/-- `table_writer::insert_raw` -/
def insertRaw (b : Nat) (data : Chunk) : Prog DB Unit := do
  let _ ← guardOf b
  onConnection (Connection.putCopyData W data)

/-- `result::rows_affected` -/
def rowsAffected (r : PGresult) : Prog DB Nat :=
  match r.cmdTuples with
  | some n => return n
  | none => Exec.throw (.logicError "statement does not return affected rows")

/-- `table_writer::commit` -/
def writerCommit (b : Nat) : Prog DB Nat := do
  let g ← guardOf b
  onConnection (Connection.putCopyEnd W none)
  let r ← getResult W g
  let n ← rowsAffected r
  resetTransaction W b
  resetPrevious W b
  return n

/-- `~table_reader` and `~table_writer` -/
def destroyBulk (b : Nat) : Prog DB Unit := do
  let k ← derefBulk b
  match k.reader, k.transaction with
  | false, some g =>
    Exec.catchAll
      (do
        let _ ← getResult W g)
      (fun _ => pure ())
  | _, _ => pure ()
  destroyMembers W b

end TaoPQ
