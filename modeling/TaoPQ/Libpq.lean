import Mathlib.Algebra.Order.Ring.Int
import TaoPQ.Server

/-!
# libpq

A `PGconn` together with the server session behind it, and the functions of libpq that the library calls.  What the
client has still to read is a stream of items: results, the null pointers that end them, and a COPY in progress,
which answers `PQgetResult` with the same result again and again until it is ended.  The stream is empty exactly
when a new command may be sent outside pipeline mode.

The answers that are not determined by the calls come from a `World`: how a wait for the socket ends, whether a
cancel request fails to reach the server or arrives too late, whether a deferred check refuses a COMMIT, and whether
a notification handler throws.  A `PGconn` counts the answers it has used.
-/

namespace TaoPQ

/-- `static_cast< int >` -/
def toInt (n : Int) : Int := n.bmod (2 ^ 32)

theorem toInt_of_fits {n : Int} (hlo : -2 ^ 31 ≤ n) (hhi : n < 2 ^ 31) : toInt n = n :=
  Int.bmod_eq_of_le (by omega) (by omega)

theorem toInt_lt (n : Int) : toInt n < 2 ^ 31 := by
  have h := Int.bmod_lt (x := n) (m := 2 ^ 32) (by decide)
  exact h

/-- A chunk of COPY data. -/
abbrev Chunk := List UInt8

/-- What libpq takes of a chunk when its size is passed as an `int`: nothing unless that is positive. -/
def passed (data : Chunk) : Chunk := data.take (toInt data.length).toNat

/-- What is passed is whole if and only if it is short enough. -/
theorem passed_eq_self_iff (data : Chunk) : passed data = data ↔ data.length < 2 ^ 31 := by
  have hlt := toInt_lt data.length
  rw [passed]
  constructor
  · intro h
    have hlength := congrArg List.length h
    rw [List.length_take] at hlength
    omega
  · intro h
    rw [toInt_of_fits (by omega) (by omega)]
    exact List.take_length

/-- What the server does with a statement of the user.  The statements that change the content do so by a partial
function, which is undefined where they fail. -/
inductive Body (DB : Type) where
  | empty
  | command (effect : DB → Option DB) (rowsAffected : Option Nat)
  | query (effect : DB → Option DB) (columns rows : Nat)
  | copyFrom (load : List Chunk → DB → Option DB) (rows : List Chunk → Nat)
  | copyTo (columns : Nat) (rows : List Chunk) (completes : Bool)

/-- A statement of the user: its text, or the name of a prepared statement, and its meaning. -/
structure Statement (DB : Type) where
  text : String
  body : Body DB

/-- What is sent to the server. -/
inductive Command (DB : Type) where
  | control (k : Control)
  | deallocate (name : String)
  | user (u : Statement DB)

def Command.text {DB : Type} : Command DB → String
  | .control k => k.text
  | .deallocate name => "DEALLOCATE \"" ++ name ++ "\""
  | .user u => u.text

/-- How waiting for the socket ends: there is something to read, the timeout is reached, the connection is broken,
or a notification arrived whose handler throws. -/
inductive Wait where
  | ready
  | timeout
  | broken
  | handler
  deriving DecidableEq, Repr

/-- The answers of the environment, each at the time it is asked for. -/
structure World where
  wait : Nat → Wait
  commitRefused : Nat → Bool
  cancelLate : Nat → Bool
  cancelFails : Nat → Bool
  handlerThrows : Nat → Bool

/-- A cancel request has no effect. -/
def World.cancelIgnored (W : World) (n : Nat) : Bool := W.cancelFails n || W.cancelLate n

/-- Nothing goes wrong. -/
def World.calm : World := ⟨fun _ => .ready, fun _ => false, fun _ => false, fun _ => false, fun _ => false⟩

/-- No notification handler throws. -/
structure World.Quiet (W : World) : Prop where
  wait : ∀ n, W.wait n ≠ .handler
  handlerThrows : ∀ n, W.handlerThrows n = false

theorem World.calm_quiet : World.calm.Quiet := ⟨fun _ => by simp [World.calm], fun _ => rfl⟩

/-- Waiting for a result that begins at a time, and the notifications that came with it, end normally. -/
def World.Delivers (W : World) (n : Nat) : Prop := W.wait n = .ready ∧ W.handlerThrows (n + 1) = false

/-- Every answer arrives, and no notification handler throws. -/
structure World.Reliable (W : World) : Prop where
  wait : ∀ n, W.wait n = .ready
  handlerThrows : ∀ n, W.handlerThrows n = false

theorem World.calm_reliable : World.calm.Reliable := ⟨fun _ => rfl, fun _ => rfl⟩

/-- So many waits, one after the other, end normally. -/
def World.Awaits (W : World) (m n : Nat) : Prop := ∀ k < m, W.wait (n + k) = .ready

theorem World.awaits_succ {W : World} {m n : Nat} : W.Awaits (m + 1) n ↔ W.wait n = .ready ∧ W.Awaits m (n + 1) := by
  constructor
  · intro h
    refine ⟨h 0 (Nat.succ_pos m), fun k hk => ?_⟩
    rw [Nat.add_right_comm, Nat.add_assoc]
    exact h (k + 1) (Nat.succ_lt_succ hk)
  · rintro ⟨hfirst, hrest⟩ (_ | k) hk
    · exact hfirst
    · have hnext := hrest k (Nat.lt_of_succ_lt_succ hk)
      rwa [Nat.add_right_comm, Nat.add_assoc] at hnext

/-- So many rows of a COPY that are waited for from a time on arrive, and so do the end of the data and the result of
the command with its notifications. -/
def World.DeliversRows (W : World) (rows n : Nat) : Prop := W.Awaits (rows + 1) n ∧ W.Delivers (n + rows + 1)

theorem World.deliversRows_zero {W : World} {n : Nat} :
    W.DeliversRows 0 n ↔ W.wait n = .ready ∧ W.Delivers (n + 1) := by
  rw [DeliversRows, awaits_succ]
  exact ⟨fun h => ⟨h.1.1, h.2⟩, fun h => ⟨⟨h.1, fun _ hk => absurd hk (Nat.not_lt_zero _)⟩, h.2⟩⟩

theorem World.deliversRows_succ {W : World} {rows n : Nat} :
    W.DeliversRows (rows + 1) n ↔ W.wait n = .ready ∧ W.DeliversRows rows (n + 1) := by
  rw [DeliversRows, DeliversRows, awaits_succ, and_assoc, Nat.add_right_comm n 1 rows, Nat.add_assoc n rows 1]

theorem World.Reliable.deliversRows {W : World} (hW : W.Reliable) (rows n : Nat) : W.DeliversRows rows n :=
  ⟨fun _ _ => hW.wait _, hW.wait _, hW.handlerThrows _⟩

/-- What `PQgetResult` and the COPY functions have still to read. -/
inductive Item (DB : Type) where
  | result (r : PGresult)
  | null
  | copyIn (load : List Chunk → DB → Option DB) (rows : List Chunk → Nat) (received : List Chunk)
  | copyOut (columns : Nat) (rows : List Chunk)

/-- `transaction_status` -/
inductive TransactionStatus where
  | idle
  | active
  | inTransaction
  | error
  | unknown
  deriving DecidableEq, Repr

/-- A libpq connection.  `isOpen` is false once the connection is broken, or was closed by a timeout. -/
structure PGconn (DB : Type) where
  isOpen : Bool
  session : Session DB
  stream : List (Item DB)
  /-- `PQpipelineStatus` is on. -/
  pipeline : Bool
  /-- A query of the pipeline failed, and no sync followed it yet. -/
  aborted : Bool
  clock : Nat

namespace PGconn

variable {DB : Type}

/-- A connection just opened to a database with the content `db`. -/
def init (db : DB) : PGconn DB := ⟨true, ⟨db, none, []⟩, [], false, false, 0⟩

def tick (c : PGconn DB) : PGconn DB := { c with clock := c.clock + 1 }

/-- After `m_pgconn.reset()`, or when the server has closed the connection. -/
def close (c : PGconn DB) : PGconn DB := { c with isOpen := false }

/-- `PQtransactionStatus` -/
def transactionStatus (c : PGconn DB) : TransactionStatus :=
  if !c.isOpen then .unknown
  else if !c.stream.isEmpty then .active
  else
    match c.session.block with
    | none => .idle
    | some b => if b.failed then .error else .inTransaction

/-- The server executes a statement of the user, and answers. -/
def runUser (c : PGconn DB) (u : Body DB) : PGconn DB × List (Item DB) :=
  match u with
  | .empty => (c, [.result (.plain .emptyQuery .other), .null])
  | .command effect n =>
    let (session, r) := c.session.run effect ⟨.commandOk, .other, 0, 0, n⟩
    ({ c with session := session }, [.result r, .null])
  | .query effect columns rows =>
    let (session, r) := c.session.run effect ⟨.tuplesOk, .other, columns, rows, some rows⟩
    ({ c with session := session }, [.result r, .null])
  | .copyFrom load rows =>
    if c.session.failed then (c, [.result .fatal, .null])
    else (c, [.copyIn load rows []])
  | .copyTo columns rows completes =>
    if c.session.failed then (c, [.result .fatal, .null])
    else if completes then
      (c, [.copyOut columns rows, .result ⟨.commandOk, .other, 0, 0, some rows.length⟩, .null])
    else ({ c with session := c.session.fail }, [.copyOut columns rows, .result .fatal, .null])

/-- The server executes a command, and answers.  A prepared statement has to exist. -/
def run (W : World) (c : PGconn DB) (byName : Bool) (cmd : Command DB) : PGconn DB × List (Item DB) :=
  match cmd with
  | .control k =>
    let (session, r) := c.session.control (W.commitRefused c.clock) k
    ({ c with session := session }.tick, [.result r, .null])
  | .deallocate name =>
    let (session, r) := c.session.deallocate name
    ({ c with session := session }, [.result r, .null])
  | .user u =>
    if byName && !c.session.prepared.contains u.text then
      ({ c with session := c.session.fail }, [.result .fatal, .null])
    else c.runUser u.body

/-- Whether the client has to wait for the answer (`PQisBusy`).  In a COPY FROM the next word is with the client. -/
def isBusy (c : PGconn DB) : Bool :=
  c.isOpen &&
    match c.stream with
    | [] => false
    | .copyIn .. :: _ => false
    | _ => true

/-- Whether the stream begins with a COPY. -/
def inCopy (c : PGconn DB) : Bool :=
  match c.stream with
  | .copyIn .. :: _ => true
  | .copyOut .. :: _ => true
  | _ => false

/-- The answer to a query of a pipeline, in which COPY is not supported. -/
def pipelineReply (items : List (Item DB)) : PGresult :=
  match items with
  | .result r :: _ => r
  | _ => .fatal

/-- `PQsendQueryParams`, and `PQsendQueryPrepared` if the statement is sent by its name. -/
def send (W : World) (byName : Bool) (cmd : Command DB) (c : PGconn DB) : PGconn DB × Bool :=
  if !c.isOpen then (c, false)
  else if c.pipeline then
    if c.inCopy then (c, false)
    else if c.aborted then
      ({ c with stream := c.stream ++ [.result (.plain .pipelineAborted .other), .null] }, true)
    else
      let (c', items) := c.run W byName cmd
      let r := pipelineReply items
      ({ c' with stream := c.stream ++ [.result r, .null], aborted := r.status = .fatalError }, true)
  else if !c.stream.isEmpty then (c, false)
  else
    let (c', items) := c.run W byName cmd
    ({ c' with stream := items }, true)

/-- `PQsendPrepare` -/
def sendPrepare (name : String) (valid : Bool) (c : PGconn DB) : PGconn DB × Bool :=
  if !c.isOpen then (c, false)
  else if c.pipeline then
    if c.inCopy then (c, false)
    else if c.aborted then
      ({ c with stream := c.stream ++ [.result (.plain .pipelineAborted .other), .null] }, true)
    else
      let (session, r) := c.session.prepare name valid
      ({ c with
        session := session, stream := c.stream ++ [.result r, .null], aborted := r.status = .fatalError }, true)
  else if !c.stream.isEmpty then (c, false)
  else
    let (session, r) := c.session.prepare name valid
    ({ c with session := session, stream := [.result r, .null] }, true)

/-- `PQgetResult` -/
def getResult (c : PGconn DB) : PGconn DB × Option PGresult :=
  if !c.isOpen then (c, none)
  else
    match c.stream with
    | [] => (c, none)
    | .result r :: rest => ({ c with stream := rest }, some r)
    | .null :: rest => ({ c with stream := rest }, none)
    | .copyIn .. :: _ => (c, some (.plain .copyIn .other))
    | .copyOut columns _ :: _ => (c, some ⟨.copyOut, .other, columns, 0, none⟩)

/-- `PQsetSingleRowMode`: the rows of the query just sent come one by one. -/
def setSingleRowMode (c : PGconn DB) : PGconn DB × Bool :=
  if !c.isOpen then (c, false)
  else
    match c.stream with
    | .result r :: rest =>
      if r.status = .tuplesOk then
        let rows := List.replicate r.ntuples (.result ⟨.singleTuple, .other, r.nfields, 1, none⟩)
        ({ c with stream := rows ++ .result { r with ntuples := 0 } :: rest }, true)
      else (c, true)
    | .copyIn .. :: _ => (c, true)
    | .copyOut .. :: _ => (c, true)
    | _ => (c, false)

/-- `PQsetChunkedRowsMode`: the rows of the query just sent come in chunks, the last of which may be smaller. -/
def setChunkedRowsMode (size : Int) (c : PGconn DB) : PGconn DB × Bool :=
  if !c.isOpen || size ≤ 0 then (c, false)
  else
    match c.stream with
    | .result r :: rest =>
      if r.status = .tuplesOk then
        let full := List.replicate (r.ntuples / size.toNat) size.toNat
        let last := if r.ntuples % size.toNat = 0 then [] else [r.ntuples % size.toNat]
        let chunks := (full ++ last).map fun n => .result ⟨.tuplesChunk, .other, r.nfields, n, none⟩
        ({ c with stream := chunks ++ .result { r with ntuples := 0 } :: rest }, true)
      else (c, true)
    | .copyIn .. :: _ => (c, true)
    | .copyOut .. :: _ => (c, true)
    | _ => (c, false)

/-- `PQgetCancel` and `PQcancel` of a COPY TO: the server ends it with an error, unless the request does not reach it,
or arrives after it has sent everything. -/
def cancel (W : World) (c : PGconn DB) : PGconn DB × Bool :=
  if c.isOpen && W.cancelFails c.clock then (c.tick, false)
  else
    match c.stream with
    | .copyOut columns _ :: .result _ :: rest =>
      if W.cancelLate c.clock then (c.tick, true)
      else
        ({ c with stream := .copyOut columns [] :: .result .fatal :: rest, session := c.session.fail }.tick, true)
    | _ => (c.tick, true)

/-- What `PQgetCopyData` answers: a row, the end of the data, or an error. -/
inductive CopyData where
  | row (data : Chunk)
  | done
  | failed
  deriving DecidableEq, Repr

/-- `PQgetCopyData` -/
def getCopyData (c : PGconn DB) : PGconn DB × CopyData :=
  if !c.isOpen then (c, .failed)
  else
    match c.stream with
    | .copyOut columns (row :: rows) :: rest => ({ c with stream := .copyOut columns rows :: rest }, .row row)
    | .copyOut _ [] :: rest => ({ c with stream := rest }, .done)
    | _ => (c, .failed)

/-- `PQputCopyData`, for the bytes that it takes. -/
def putCopyData (c : PGconn DB) (data : Chunk) : PGconn DB × Bool :=
  if !c.isOpen then (c, false)
  else
    match c.stream with
    | .copyIn load rows received :: rest =>
      ({ c with stream := .copyIn load rows (received ++ [data]) :: rest }, true)
    | _ => (c, false)

/-- `PQputCopyEnd`, with an error message or without. -/
def putCopyEnd (c : PGconn DB) (errorMessage : Option String) : PGconn DB × Bool :=
  if !c.isOpen then (c, false)
  else
    match c.stream with
    | .copyIn load rows received :: rest =>
      match errorMessage with
      | some _ => ({ c with session := c.session.fail, stream := .result .fatal :: .null :: rest }, true)
      | none =>
        let (session, r) := c.session.run (load received) ⟨.commandOk, .other, 0, 0, some (rows received)⟩
        ({ c with session := session, stream := .result r :: .null :: rest }, true)
    | _ => (c, false)

/-- `PQenterPipelineMode` -/
def enterPipelineMode (c : PGconn DB) : PGconn DB × Bool :=
  if !c.isOpen then (c, false)
  else if c.pipeline then (c, true)
  else if !c.stream.isEmpty then (c, false)
  else ({ c with pipeline := true, aborted := false }, true)

/-- `PQexitPipelineMode` -/
def exitPipelineMode (c : PGconn DB) : PGconn DB × Bool :=
  if !c.isOpen then (c, false)
  else if !c.stream.isEmpty then (c, false)
  else ({ c with pipeline := false }, true)

/-- `PQpipelineSync` -/
def pipelineSync (c : PGconn DB) : PGconn DB × Bool :=
  if !c.isOpen || !c.pipeline || c.inCopy then (c, false)
  else ({ c with stream := c.stream ++ [.result (.plain .pipelineSync .other)], aborted := false }, true)

end PGconn

end TaoPQ
