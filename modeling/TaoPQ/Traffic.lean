import TaoPQ.Answers

/-!
# What the calls keep of a connection

A relation between connections that the functions of `connection` keep to (`Connection.CallsFollow`) is kept to by
every call of a program that does not enter pipeline mode (`perform_follows`), whatever it does to the transaction
objects.  So it suffices to look at the functions that talk to libpq.
-/

namespace TaoPQ

open Exec

variable {DB : Type}

/-- The functions by which objects talk to libpq keep to a relation, apart from entering pipeline mode. -/
structure Connection.CallsFollow (W : World) (R : Connection DB → Connection DB → Prop) : Prop extends
    ReadsFollow W R where
  sendParams : ∀ cmd, Follows R (sendParams W cmd)
  setSingleRowMode : Follows R setSingleRowMode
  setChunkMode : ∀ rows, Follows R (setChunkMode rows)
  libpqPutCopyData : ∀ data, Follows R (libpqOr .putCopyData (fun c => c.putCopyData data) (.error .libpq))
  attemptRollback : Follows R attemptRollback
  exitPipelineMode : Follows R exitPipelineMode
  pipelineSync : Follows R pipelineSync
  libpqSendPrepare : ∀ name valid,
    Follows R (libpqOr .sendPrepare (PGconn.sendPrepare name valid) (.connectionError .libpq))
  prepared : ∀ c names, R c { c with prepared := names }

/-- The same, apart from preparing and deallocating statements. -/
structure Connection.StatementsFollow (W : World) (R : Connection DB → Connection DB → Prop) : Prop extends
    ReadsFollow W R where
  sendControl : ∀ k, Follows R (sendParams W (.control k))
  sendUser : ∀ u, Follows R (sendParams W (.user u))
  setSingleRowMode : Follows R setSingleRowMode
  setChunkMode : ∀ rows, Follows R (setChunkMode rows)
  libpqPutCopyData : ∀ data, Follows R (libpqOr .putCopyData (fun c => c.putCopyData data) (.error .libpq))
  attemptRollback : Follows R attemptRollback
  exitPipelineMode : Follows R exitPipelineMode
  pipelineSync : Follows R pipelineSync

theorem Connection.CallsFollow.statements {W : World} {R : Connection DB → Connection DB → Prop}
    (h : CallsFollow W R) : StatementsFollow W R :=
  { h with
    sendControl := fun _ => h.sendParams _
    sendUser := fun _ => h.sendParams _ }

/-- A relation between connections, of connections with their objects. -/
def OnConnection (R : Connection DB → Connection DB → Prop) (s s' : State DB) : Prop := R s.conn s'.conn

namespace OnConnection

variable {R : Connection DB → Connection DB → Prop} [IsPreorder (Connection DB) R]

instance : IsPreorder (State DB) (OnConnection R) where
  refl s := refl (r := R) s.conn
  trans s s' s'' := IsTrans.trans (r := R) s.conn s'.conn s''.conn

section Heap

variable {α : Type}

omit [IsPreorder (Connection DB) R] in
theorem onConnection {x : Exec (Connection DB) Exn α} (h : Follows R x) :
    Follows (OnConnection R) (TaoPQ.onConnection x) := h.zoom fun _ _ => id

theorem deref (a : Addr) : Follows (OnConnection R) (TaoPQ.deref a : Prog DB Object) := by
  intro s
  rw [wp_deref]
  exact ⟨fun _ _ => refl (r := OnConnection R) s, fun _ => trivial⟩

theorem derefBulk (b : Nat) : Follows (OnConnection R) (TaoPQ.derefBulk b : Prog DB Bulk) := by
  intro s
  rw [wp_derefBulk]
  exact ⟨fun _ _ => refl (r := OnConnection R) s, fun _ => trivial⟩

theorem derefConnection (a : Addr) : Follows (OnConnection R) (TaoPQ.derefConnection a : Prog DB Unit) :=
  .bind (deref a) fun _ => .ite (.pure _) .undefined

theorem derefPointer (p : Option Addr) : Follows (OnConnection R) (TaoPQ.derefPointer p : Prog DB Addr) := by
  cases p with
  | none => exact .undefined
  | some a => exact .bind (deref a) fun _ => .pure _

theorem modify {f : State DB → State DB} (h : ∀ s, (f s).conn = s.conn) :
    Follows (OnConnection R) (Exec.modify f : Prog DB Unit) :=
  .modify fun s => by
    rw [OnConnection, h s]
    exact refl (r := R) s.conn

theorem checkCurrentTransaction (a : Addr) :
    Follows (OnConnection R) (TaoPQ.checkCurrentTransaction a : Prog DB Unit) :=
  .bind (deref a) fun _ => .bind .get fun _ => .ite (.pure _) (.throw _)

theorem vReset (a : Addr) : Follows (OnConnection R) (TaoPQ.vReset a : Prog DB Unit) :=
  .bind (derefConnection a) fun _ => .bind (deref a) fun _ =>
    .bind (modify fun _ => rfl) fun _ => modify fun _ => rfl

theorem deregister (a : Addr) : Follows (OnConnection R) (TaoPQ.deregister a : Prog DB Unit) :=
  .bind (deref a) fun _ => .ite (modify fun _ => rfl) (.pure _)

theorem endWith (a : Addr) {x : Prog DB Unit} (hx : Follows (OnConnection R) x) :
    Follows (OnConnection R) (TaoPQ.endWith a x) :=
  .bind (.catchAll (.bind (checkCurrentTransaction a) fun _ => hx) fun _ => .bind (vReset a) fun _ => .throw _)
    fun _ => vReset a

theorem guardOf (b : Nat) : Follows (OnConnection R) (TaoPQ.guardOf b : Prog DB Addr) :=
  .bind (derefBulk b) fun _ => .bind (derefPointer _) fun _ => .bind (derefConnection _) fun _ => .pure _

theorem newTransactionBase (a : Addr) (role : Role) :
    Follows (OnConnection R) (TaoPQ.newTransactionBase a role : Prog DB Unit) := by
  have pushed : Follows (OnConnection R) (do putObject a ⟨role, true⟩; setCurrent (some a) : Prog DB Unit) :=
    .bind (modify fun _ => rfl) fun _ => modify fun _ => rfl
  exact .bind .get fun _ => .ite (.bind (.throw _) fun _ => pushed) pushed

theorem newSubtransactionBase (a : Addr) (role : Addr → Role) :
    Follows (OnConnection R) (TaoPQ.newSubtransactionBase a role : Prog DB Unit) :=
  .bind .get fun _ => .bind (derefPointer _) fun _ => .bind (modify fun _ => rfl) fun _ => modify fun _ => rfl

theorem direct (a : Addr) : Follows (OnConnection R) (TaoPQ.direct a : Prog DB Unit) :=
  .bind (newTransactionBase a _) fun _ => modify fun _ => rfl

theorem rowsAffected (r : PGresult) : Follows (OnConnection R) (TaoPQ.rowsAffected r : Prog DB Nat) := by
  unfold TaoPQ.rowsAffected
  cases r.cmdTuples with
  | none => exact .throw _
  | some n => exact .pure n

end Heap

section Calls

variable {W : World} (h : Connection.StatementsFollow W R)

theorem throwSqlstate {α : Type} (r : Option PGresult) :
    Follows R (Connection.throwSqlstate r : Exec (Connection DB) Exn α) := by
  cases r <;> exact .throw _

include h

omit h in
theorem send (a : Addr) {cmd : Command DB} (hcmd : Follows R (Connection.sendParams W cmd)) :
    Follows (OnConnection R) (TaoPQ.send W a cmd) :=
  .bind (checkCurrentTransaction a) fun _ => onConnection hcmd

theorem getResult (a : Addr) : Follows (OnConnection R) (TaoPQ.getResult W a : Prog DB PGresult) :=
  .bind (checkCurrentTransaction a) fun _ => onConnection h.fetchResult

theorem execute (a : Addr) {cmd : Command DB} (hcmd : Follows R (Connection.sendParams W cmd)) :
    Follows (OnConnection R) (TaoPQ.execute W a cmd) :=
  .bind (send a hcmd) fun _ => getResult h a

theorem command (a : Addr) (k : Control) :
    Follows (OnConnection R) (do let _ ← TaoPQ.execute W a (.control k) : Prog DB Unit) :=
  .bind (execute h a (h.sendControl k)) fun _ => .pure _

theorem vCommit (a : Addr) : Follows (OnConnection R) (TaoPQ.vCommit W a : Prog DB Unit) :=
  .bind (deref a) fun o => by
    cases o.role with
    | topLevelTransaction => exact command h a _
    | topLevelSubtransaction p => exact command h a _
    | nestedSubtransaction p => exact command h a _
    | _ => exact .pure _

theorem vRollback (a : Addr) : Follows (OnConnection R) (TaoPQ.vRollback W a : Prog DB Unit) :=
  .bind (deref a) fun o => by
    cases o.role with
    | topLevelTransaction => exact command h a _
    | topLevelSubtransaction p => exact command h a _
    | nestedSubtransaction p => exact command h a _
    | _ => exact .pure _

theorem rollbackInDtor (a : Addr) : Follows (OnConnection R) (TaoPQ.rollbackInDtor W a : Prog DB Unit) :=
  .bind (.catchAll (.bind (checkCurrentTransaction a) fun _ => vRollback h a) fun _ => derefConnection a)
    fun _ => vReset a

theorem attemptRollbackInDtor (a : Addr) :
    Follows (OnConnection R) (TaoPQ.attemptRollbackInDtor W a : Prog DB Unit) :=
  .bind (deref a) fun _ =>
    .ite (.bind (onConnection h.attemptRollback) fun _ => .ite (rollbackInDtor h a) (.pure _)) (.pure _)

theorem finishWith {release : Addr → Prog DB Unit} (hr : ∀ a, Follows (OnConnection R) (release a)) (a : Addr) :
    Follows (OnConnection R) (TaoPQ.finishWith release a) :=
  .bind (deref a) fun o => by
    split
    · exact .bind (modify fun _ => rfl) fun _ => .bind (modify fun _ => rfl) fun _ =>
        .andFinally (onConnection h.exitPipelineMode) (hr _)
    · exact .pure _

theorem destructor {release : Addr → Prog DB Unit} (hr : ∀ a, Follows (OnConnection R) (release a)) (a : Addr) :
    Follows (OnConnection R) (TaoPQ.destructor W release a) :=
  .bind (deref a) fun o => by
    have ended : Follows (OnConnection R) (do TaoPQ.attemptRollbackInDtor W a; TaoPQ.deregister a : Prog DB Unit) :=
      .bind (attemptRollbackInDtor h a) fun _ => deregister a
    cases o.role with
    | autocommitTransaction => exact deregister a
    | topLevelTransaction => exact ended
    | topLevelSubtransaction p => exact ended
    | nestedSubtransaction p => exact ended
    | transactionGuard p => exact deregister a
    | pipeline p => exact .catchAll (finishWith h hr a) fun _ => .pure _

theorem releaseN (n : Nat) (a : Addr) : Follows (OnConnection R) (TaoPQ.releaseN W n a : Prog DB Unit) := by
  induction n generalizing a with
  | zero => exact .pure _
  | succ n ih =>
    refine .bind .get fun s => .ite ?_ (.pure _)
    refine .bind (destructor h ih a) fun _ => .bind (deref a) fun o => .bind (modify fun _ => rfl) fun _ => ?_
    cases o.role.previous with
    | none => exact .pure _
    | some p => exact ih p

theorem release (a : Addr) : Follows (OnConnection R) (TaoPQ.release W a : Prog DB Unit) :=
  .bind .get fun _ => releaseN h _ a

theorem dropHandle (a : Addr) : Follows (OnConnection R) (TaoPQ.dropHandle W a : Prog DB Unit) :=
  .bind (modify fun _ => rfl) fun _ => release h a

theorem transaction (a : Addr) (il : IsolationLevel) (am : AccessMode) :
    Follows (OnConnection R) (TaoPQ.transaction W a il am : Prog DB Unit) :=
  .bind (newTransactionBase a _) fun _ =>
    .bind (.catchAll (execute h a (h.sendControl _)) fun _ =>
      .bind (deregister a) fun _ => .bind (modify fun _ => rfl) fun _ => .throw _) fun _ => modify fun _ => rfl

theorem unwindSubtransaction (a : Addr) : Follows (OnConnection R) (TaoPQ.unwindSubtransaction W a : Prog DB Unit) :=
  .bind (deregister a) fun _ => .bind (deref a) fun o => .bind (modify fun _ => rfl) fun _ => by
    cases o.role.previous with
    | none => exact .pure _
    | some p => exact release h p

theorem newSubtransaction (a : Addr) (role : Addr → Role) (k : Control) :
    Follows (OnConnection R) (TaoPQ.newSubtransaction W a role k : Prog DB Unit) :=
  .bind (newSubtransactionBase a role) fun _ =>
    .bind (.catchAll (execute h a (h.sendControl k)) fun _ => .bind (unwindSubtransaction h a) fun _ => .throw _) fun _ =>
      modify fun _ => rfl

theorem subtransaction (o a : Addr) : Follows (OnConnection R) (TaoPQ.subtransaction W o a : Prog DB Unit) :=
  .bind (checkCurrentTransaction o) fun _ => .bind (deref o) fun _ =>
    .ite (newSubtransaction h a _ _) (newSubtransaction h a _ _)

theorem connectionExecute (d : Addr) {cmd : Command DB} (hcmd : Follows R (Connection.sendParams W cmd)) :
    Follows (OnConnection R) (TaoPQ.connectionExecute W d cmd) :=
  .bind (direct d) fun _ => .andFinally (execute h d hcmd) (dropHandle h d)

omit h in
theorem deallocate (h : Connection.CallsFollow W R) (d : Addr) (name : String) :
    Follows (OnConnection R) (TaoPQ.deallocate W d name : Prog DB Unit) :=
  .bind (onConnection (.ite (.pure _) (.throw _))) fun _ => .bind .get fun _ =>
    .ite (.bind (connectionExecute h.statements d (h.sendParams _)) fun _ => .modify fun s => h.prepared s.conn _)
      (.throw _)

theorem consumePipelineSync (a : Addr) : Follows (OnConnection R) (TaoPQ.consumePipelineSync W a : Prog DB Unit) :=
  .bind (checkCurrentTransaction a) fun _ => onConnection <| .bind h.getResult fun r => by
    cases r with
    | none => exact .throw _
    | some r => exact .ite (.pure _) (.throw _)

theorem consumeSync (a : Addr) : Follows (OnConnection R) (TaoPQ.consumeSync W a : Prog DB Unit) :=
  .bind (derefConnection a) fun _ => .bind .get fun _ => .bind (derefPointer _) fun _ => consumePipelineSync h _

omit h in
theorem connectionPrepare (h : Connection.CallsFollow W R) (name : String) (valid : Bool) :
    Follows R (Connection.prepare W name valid) := by
  have registered : Follows R (Exec.modify fun c =>
      { c with prepared := if c.prepared.contains name then c.prepared else name :: c.prepared } :
        Exec (Connection DB) Exn Unit) := .modify fun c => h.prepared c _
  refine .bind (.ite (.pure _) (.throw _)) fun _ => .bind (h.libpqSendPrepare name valid) fun _ => ?_
  refine .bind h.getResult fun r => ?_
  cases Connection.statusOf r with
  | commandOk => exact .bind h.consumeEmptyResult fun _ => registered
  | tuplesOk => exact .bind .undefined fun _ => registered
  | emptyQuery => exact .bind .undefined fun _ => registered
  | copyIn => exact .bind .undefined fun _ => registered
  | copyOut => exact .bind .undefined fun _ => registered
  | _ => exact .bind h.consumeEmptyResult fun _ => .bind (throwSqlstate r) fun _ => registered

theorem resetTransaction (b : Nat) : Follows (OnConnection R) (TaoPQ.resetTransaction W b : Prog DB Unit) :=
  .bind (derefBulk b) fun k => .bind (modify fun _ => rfl) fun _ => by
    cases k.transaction with
    | none => exact .pure _
    | some g => exact release h g

theorem resetPrevious (b : Nat) : Follows (OnConnection R) (TaoPQ.resetPrevious W b : Prog DB Unit) :=
  .bind (derefBulk b) fun k => .bind (modify fun _ => rfl) fun _ => by
    cases k.previous with
    | none => exact .pure _
    | some o => exact release h o

theorem destroyMembers (b : Nat) : Follows (OnConnection R) (TaoPQ.destroyMembers W b : Prog DB Unit) :=
  .bind (resetTransaction h b) fun _ => .bind (resetPrevious h b) fun _ => modify fun _ => rfl

theorem readerCheckResult (b : Nat) : Follows (OnConnection R) (TaoPQ.readerCheckResult W b : Prog DB Unit) :=
  .bind (guardOf b) fun g => .bind (onConnection h.getResult) fun r => by
    have failed {x : Prog DB Unit} (hx : Follows (OnConnection R) x) :
        Follows (OnConnection R) (do TaoPQ.onConnection (Connection.consumeEmptyResult W); x) :=
      .bind (onConnection h.consumeEmptyResult) fun _ => hx
    cases Connection.statusOf r with
    | copyOut => exact .bind (derefBulk b) fun _ => modify fun _ => rfl
    | copyIn => exact .bind (getResult h g) fun _ => .undefined
    | commandOk => exact failed (.throw _)
    | tuplesOk => exact failed (.throw _)
    | emptyQuery => exact failed (.throw _)
    | _ => exact failed (onConnection (throwSqlstate r))

theorem writerCheckResult (b : Nat) : Follows (OnConnection R) (TaoPQ.writerCheckResult W b : Prog DB Unit) :=
  .bind (guardOf b) fun _ => .bind (onConnection h.getResult) fun r => by
    have failed {x : Prog DB Unit} (hx : Follows (OnConnection R) x) :
        Follows (OnConnection R) (do TaoPQ.onConnection (Connection.consumeEmptyResult W); x) :=
      .bind (onConnection h.consumeEmptyResult) fun _ => hx
    cases Connection.statusOf r with
    | copyIn => exact .pure _
    | copyOut =>
      exact .bind (onConnection h.cancel) fun _ => .bind (onConnection h.clearCopyData) fun _ =>
        .bind (onConnection h.getFatalError) fun _ => failed (.throw _)
    | commandOk => exact failed (.throw _)
    | tuplesOk => exact failed (.throw _)
    | emptyQuery => exact failed (.throw _)
    | _ => exact failed (onConnection (throwSqlstate r))

theorem newBulk (reader : Bool) (o g : Addr) (b : Nat) (u : Statement DB) :
    Follows (OnConnection R) (TaoPQ.newBulk W reader o g b u) :=
  .bind (.bind (derefConnection o) fun _ => newSubtransactionBase g _) fun _ => .bind (modify fun _ => rfl) fun _ =>
    .catchAll (.bind (send g (h.sendUser u)) fun _ => .ite (readerCheckResult h b) (writerCheckResult h b)) fun _ =>
      .bind (destroyMembers h b) fun _ => .throw _

theorem getRawData (b : Nat) : Follows (OnConnection R) (TaoPQ.getRawData W b : Prog DB (Option Chunk)) :=
  .bind (guardOf b) fun _ => .bind (onConnection h.getCopyData) fun data => .bind (derefBulk b) fun _ =>
    .bind (modify fun _ => rfl) fun _ => by
      cases data with
      | some row => exact .pure _
      | none =>
        refine .bind (onConnection h.getResult) fun r => ?_
        cases r with
        | none => exact onConnection (throwSqlstate none)
        | some r =>
          exact .bind (onConnection (Connection.ReadsFollow.result r)) fun _ => .bind (resetTransaction h b) fun _ =>
            .bind (resetPrevious h b) fun _ => .pure _

theorem insertRaw (b : Nat) (data : Chunk) : Follows (OnConnection R) (TaoPQ.insertRaw W b data : Prog DB Unit) :=
  .bind (guardOf b) fun _ => onConnection <| .bind (h.waitWhen _) fun _ => h.libpqPutCopyData (passed data)

theorem writerCommit (b : Nat) : Follows (OnConnection R) (TaoPQ.writerCommit W b : Prog DB Nat) :=
  .bind (guardOf b) fun g => .bind (onConnection (h.putCopyEnd none)) fun _ => .bind (getResult h g) fun r =>
    .bind (rowsAffected r) fun _ => .bind (resetTransaction h b) fun _ => .bind (resetPrevious h b) fun _ => .pure _

theorem destroyBulk (b : Nat) : Follows (OnConnection R) (TaoPQ.destroyBulk W b : Prog DB Unit) :=
  .bind (derefBulk b) fun k => by
    split
    · exact .bind (.catchAll (.bind (getResult h _) fun _ => .pure _) fun _ => .pure _) fun _ => destroyMembers h b
    · exact destroyMembers h b

end Calls

end OnConnection

/-- The calls that enter pipeline mode. -/
def Call.pipelined : Call DB → Bool
  | .connectionPipeline _ _ | .enterPipelineMode | .pipeline _ _ => true
  | _ => false

/-- The calls that change the set of prepared statements. -/
def Call.prepares : Call DB → Bool
  | .prepare _ _ | .deallocate _ _ => true
  | _ => false

/-- A call that neither enters pipeline mode nor changes the set of prepared statements keeps to what the other functions
of the connection keep to. -/
theorem perform_follows_statements {W : World} {R : Connection DB → Connection DB → Prop}
    [IsPreorder (Connection DB) R] (h : Connection.StatementsFollow W R) {c : Call DB} (hc : c.pipelined = false)
    (hp : c.prepares = false) : Follows (OnConnection R) (perform W c) := by
  cases c with
  | direct a => exact OnConnection.direct a
  | transaction a il am => exact OnConnection.transaction h a il am
  | connectionPipeline d a => cases hc
  | connectionExecute d u => exact .bind (OnConnection.connectionExecute h d (h.sendUser u)) fun _ => .pure _
  | prepare name valid => cases hp
  | deallocate d name => cases hp
  | enterPipelineMode => cases hc
  | exitPipelineMode => exact OnConnection.onConnection h.exitPipelineMode
  | connectionSync => exact OnConnection.onConnection h.pipelineSync
  | subtransaction o a => exact OnConnection.subtransaction h o a
  | pipeline o a => cases hc
  | send o u => exact OnConnection.send o (h.sendUser u)
  | setSingleRowMode o =>
    exact .bind (OnConnection.checkCurrentTransaction o) fun _ => OnConnection.onConnection h.setSingleRowMode
  | setChunkMode o rows =>
    exact .bind (OnConnection.checkCurrentTransaction o) fun _ => OnConnection.onConnection (h.setChunkMode rows)
  | getResult o => exact .bind (OnConnection.getResult h o) fun _ => .pure _
  | consumePipelineSync o => exact OnConnection.consumePipelineSync h o
  | execute o u => exact .bind (OnConnection.execute h o (h.sendUser u)) fun _ => .pure _
  | commit o => exact OnConnection.endWith o (OnConnection.vCommit h o)
  | rollback o => exact OnConnection.endWith o (OnConnection.vRollback h o)
  | sync o => exact .bind (OnConnection.derefConnection o) fun _ => OnConnection.onConnection h.pipelineSync
  | consumeSync o => exact OnConnection.consumeSync h o
  | finish o => exact OnConnection.finishWith h (OnConnection.release h) o
  | copyHandle o => exact OnConnection.modify fun _ => rfl
  | dropHandle o => exact OnConnection.dropHandle h o
  | tableReader o g b u => exact OnConnection.newBulk h true o g b u
  | tableWriter o g b u => exact OnConnection.newBulk h false o g b u
  | getRow b => exact .bind (OnConnection.getRawData h b) fun _ => .pure _
  | insertRaw b data => exact OnConnection.insertRaw h b data
  | writerCommit b => exact .bind (OnConnection.writerCommit h b) fun _ => .pure _
  | destroyBulk b => exact OnConnection.destroyBulk h b

/-- A call that does not enter pipeline mode keeps to what the functions of the connection keep to. -/
theorem perform_follows {W : World} {R : Connection DB → Connection DB → Prop} [IsPreorder (Connection DB) R]
    (h : Connection.CallsFollow W R) {c : Call DB} (hc : c.pipelined = false) :
    Follows (OnConnection R) (perform W c) := by
  cases hp : c.prepares with
  | false => exact perform_follows_statements h.statements hc hp
  | true =>
    cases c with
    | prepare name valid => exact OnConnection.onConnection (OnConnection.connectionPrepare h name valid)
    | deallocate d name => exact OnConnection.deallocate h d name
    | _ => cases hp

/-- Every call keeps to what the functions of the connection keep to, with those that enter pipeline mode. -/
theorem perform_follows_all {W : World} {R : Connection DB → Connection DB → Prop} [IsPreorder (Connection DB) R]
    (h : Connection.CallsFollow W R) (he : Follows R Connection.enterPipelineMode) (c : Call DB) :
    Follows (OnConnection R) (perform W c) := by
  have pipeline (o a : Addr) : Follows (OnConnection R) (TaoPQ.pipeline o a : Prog DB Unit) :=
    .bind (OnConnection.checkCurrentTransaction o) fun _ => .bind .get fun s =>
      .bind (OnConnection.derefPointer s.current) fun _ => .bind (OnConnection.onConnection he) fun _ =>
        .bind (OnConnection.modify fun _ => rfl) fun _ => .bind (OnConnection.modify fun _ => rfl) fun _ =>
          OnConnection.modify fun _ => rfl
  cases hc : c.pipelined with
  | false => exact perform_follows h hc
  | true =>
    cases c with
    | connectionPipeline d a =>
      exact .bind (OnConnection.direct d) fun _ => .andFinally (pipeline d a) (OnConnection.dropHandle h.statements d)
    | enterPipelineMode => exact OnConnection.onConnection he
    | pipeline o a => exact pipeline o a
    | _ => cases hc

/-! ### What the functions of libpq preserve -/

/-- No function of libpq breaks a property of the `PGconn`. -/
structure PGconn.Preserved (W : World) (I : PGconn DB → Prop) : Prop where
  tick : ∀ c, I c → I c.tick
  close : ∀ c, I c → I c.close
  send : ∀ c byName cmd, I c → I (c.send W byName cmd).1
  sendPrepare : ∀ c name valid, I c → I (c.sendPrepare name valid).1
  getResult : ∀ c, I c → I c.getResult.1
  setSingleRowMode : ∀ c, I c → I c.setSingleRowMode.1
  setChunkedRowsMode : ∀ c rows, I c → I (c.setChunkedRowsMode rows).1
  cancel : ∀ c, I c → I (c.cancel W).1
  getCopyData : ∀ c, I c → I c.getCopyData.1
  putCopyData : ∀ c data, I c → I (c.putCopyData data).1
  putCopyEnd : ∀ c m, I c → I (c.putCopyEnd m).1
  enterPipelineMode : ∀ c, I c → I c.enterPipelineMode.1
  exitPipelineMode : ∀ c, I c → I c.exitPipelineMode.1
  pipelineSync : ∀ c, I c → I c.pipelineSync.1

/-- The functions of libpq for reading do not break a property of the `PGconn`. -/
structure PGconn.ReadsPreserved (W : World) (I : PGconn DB → Prop) : Prop where
  tick : ∀ c, I c → I c.tick
  close : ∀ c, I c → I c.close
  getResult : ∀ c, I c → I c.getResult.1
  cancel : ∀ c, I c → I (c.cancel W).1
  getCopyData : ∀ c, I c → I c.getCopyData.1
  putCopyEnd : ∀ c m, I c → I (c.putCopyEnd m).1

theorem PGconn.Preserved.reads {W : World} {I : PGconn DB → Prop} (h : PGconn.Preserved W I) :
    PGconn.ReadsPreserved W I :=
  { h with }

namespace Connection

/-- A property of the `PGconn` is not lost. -/
def Keeps (I : PGconn DB → Prop) (c c' : Connection DB) : Prop := I c.pg → I c'.pg

variable {I : PGconn DB → Prop} {W : World}

instance : IsPreorder (Connection DB) (Keeps I) where
  refl _ := id
  trans _ _ _ h h' := fun hc => h' (h hc)

theorem libpq_keeps {β : Type} (call : LibpqCall) {f : PGconn DB → PGconn DB × β} (h : ∀ c, I c → I (f c).1) :
    Follows (Keeps I) (libpq call f) := fun c => h c.pg

theorem libpqOr_keeps (call : LibpqCall) {f : PGconn DB → PGconn DB × Bool} (e : Exn)
    (h : ∀ c, I c → I (f c).1) : Follows (Keeps I) (libpqOr call f e) :=
  .bind (libpq_keeps call h) fun _ => .ite (.pure _) (.throw e)

theorem enterPipelineMode_keeps (h : PGconn.Preserved W I) : Follows (Keeps I) enterPipelineMode :=
  libpqOr_keeps _ _ h.enterPipelineMode

theorem reads_keep (h : PGconn.ReadsPreserved W I) : ReadsFollow W (Keeps I) where
  wait := by
    intro c
    unfold wp wait
    cases W.wait c.pg.clock with
    | ready => exact h.tick _
    | timeout => exact fun hc => h.close _ (h.tick _ hc)
    | broken => exact fun hc => h.close _ (h.tick _ hc)
    | handler => exact h.tick _
  handleNotifications := by
    intro c
    unfold wp handleNotifications
    split <;> exact h.tick _
  libpqGetResult := libpq_keeps _ h.getResult
  libpqGetCopyData := libpq_keeps _ h.getCopyData
  libpqPutCopyEnd m := libpq_keeps _ fun c => h.putCopyEnd c m
  cancel := libpqOr_keeps _ _ h.cancel

/-- What libpq preserves is kept by the functions of the connection. -/
theorem calls_keep (h : PGconn.Preserved W I) : CallsFollow W (Keeps I) where
  toReadsFollow := reads_keep h.reads
  sendParams cmd := .bind .get fun _ => libpqOr_keeps _ _ fun c => h.send c _ cmd
  setSingleRowMode := libpqOr_keeps _ _ h.setSingleRowMode
  setChunkMode rows := libpqOr_keeps _ _ fun c => h.setChunkedRowsMode c rows
  libpqPutCopyData data := libpqOr_keeps _ _ fun c => h.putCopyData c data
  attemptRollback := .bind (libpq_keeps _ fun _ => id) fun t => by cases t <;> exact .pure _
  exitPipelineMode := libpqOr_keeps _ _ h.exitPipelineMode
  pipelineSync := libpqOr_keeps _ _ h.pipelineSync
  libpqSendPrepare name valid := libpqOr_keeps _ _ fun c => h.sendPrepare c name valid
  prepared _ _ := id

end Connection

/-- What libpq preserves, and holds of a new connection, holds in every state that a program reaches. -/
theorem Reaches.preserved {W : World} {ok : State DB → Call DB → Prop} {I : PGconn DB → Prop}
    (hI : PGconn.Preserved W I) (hinit : ∀ db, I (PGconn.init db)) {s : State DB} (h : Reaches W ok s) : I s.conn.pg :=
  h.invariant (I := fun s => I s.conn.pg) hinit fun s c _ hs _ hstep =>
    Outcome.Sat.of_stateLeft
      (perform_follows_all (Connection.calls_keep hI) (Connection.enterPipelineMode_keeps hI) c s) hstep.2 hs

/-! ### What lasts outside pipeline mode -/

namespace PGconn

/-- Pipeline mode is off. -/
def Plain (c : PGconn DB) : Prop := c.pipeline = false

variable {c : PGconn DB}

private theorem runUser_lasts (u : Body DB) : (c.runUser u).1.pipeline = c.pipeline ∧
    (c.runUser u).1.isOpen = c.isOpen := by
  cases u with
  | empty => exact ⟨rfl, rfl⟩
  | command effect n => exact ⟨rfl, rfl⟩
  | query effect columns rows => exact ⟨rfl, rfl⟩
  | copyFrom load rows =>
    simp only [runUser]
    split <;> exact ⟨rfl, rfl⟩
  | copyTo columns rows completes =>
    simp only [runUser]
    split
    · exact ⟨rfl, rfl⟩
    · split <;> exact ⟨rfl, rfl⟩

private theorem run_lasts (W : World) (byName : Bool) (cmd : Command DB) :
    (c.run W byName cmd).1.pipeline = c.pipeline ∧ (c.run W byName cmd).1.isOpen = c.isOpen := by
  cases cmd with
  | control k => exact ⟨rfl, rfl⟩
  | deallocate name => exact ⟨rfl, rfl⟩
  | user u =>
    simp only [run]
    split
    · exact ⟨rfl, rfl⟩
    · exact runUser_lasts _

end PGconn

namespace Connection

/-- Pipeline mode is not entered, and a connection that is lost stays lost. -/
def Lasts (c c' : Connection DB) : Prop := (c.pg.Plain → c'.pg.Plain) ∧ (c.Lost → c'.Lost)

instance : IsPreorder (Connection DB) Lasts where
  refl _ := ⟨id, id⟩
  trans _ _ _ h h' := ⟨fun hc => h'.1 (h.1 hc), fun hc => h'.2 (h.2 hc)⟩

variable {W : World}

private theorem libpq_lasts {β : Type} (call : LibpqCall) {f : PGconn DB → PGconn DB × β}
    (h : ∀ c : PGconn DB, (c.Plain → (f c).1.Plain) ∧ (f c).1.isOpen = c.isOpen) : Follows Lasts (libpq call f) :=
  fun c => ⟨(h c.pg).1, fun hc => (h c.pg).2.trans hc⟩

private theorem libpqOr_lasts (call : LibpqCall) {f : PGconn DB → PGconn DB × Bool} (e : Exn)
    (h : ∀ c : PGconn DB, (c.Plain → (f c).1.Plain) ∧ (f c).1.isOpen = c.isOpen) : Follows Lasts (libpqOr call f e) :=
  .bind (libpq_lasts call h) fun _ => .ite (.pure _) (.throw e)

private theorem send_lasts (byName : Bool) (cmd : Command DB) (c : PGconn DB) :
    (c.Plain → (c.send W byName cmd).1.Plain) ∧ (c.send W byName cmd).1.isOpen = c.isOpen := by
  have h := PGconn.run_lasts (c := c) W byName cmd
  unfold PGconn.send
  generalize c.run W byName cmd = answer at h ⊢
  obtain ⟨c', items⟩ := answer
  dsimp only
  repeat' split
  all_goals first
    | exact ⟨id, rfl⟩
    | exact ⟨fun hc => h.1.trans hc, h.2⟩

theorem calls_last : CallsFollow W (@Lasts DB) where
  wait := by
    intro c
    unfold wp wait
    cases W.wait c.pg.clock with
    | ready => exact ⟨id, id⟩
    | timeout => exact ⟨id, fun _ => rfl⟩
    | broken => exact ⟨id, fun _ => rfl⟩
    | handler => exact ⟨id, id⟩
  handleNotifications := by
    intro c
    unfold wp handleNotifications
    split <;> exact ⟨id, id⟩
  libpqGetResult := libpq_lasts _ fun c => by
    unfold PGconn.getResult
    repeat' split
    all_goals exact ⟨id, rfl⟩
  libpqGetCopyData := libpq_lasts _ fun c => by
    unfold PGconn.getCopyData
    repeat' split
    all_goals exact ⟨id, rfl⟩
  libpqPutCopyEnd m := libpq_lasts _ fun c => by
    unfold PGconn.putCopyEnd
    repeat' split
    all_goals exact ⟨id, rfl⟩
  cancel := libpqOr_lasts _ _ fun c => by
    unfold PGconn.cancel
    repeat' split
    all_goals exact ⟨id, rfl⟩
  sendParams cmd := .bind .get fun _ => libpqOr_lasts _ _ (send_lasts _ cmd)
  setSingleRowMode := libpqOr_lasts _ _ fun c => by
    unfold PGconn.setSingleRowMode
    repeat' split
    all_goals exact ⟨id, rfl⟩
  setChunkMode rows := libpqOr_lasts _ _ fun c => by
    unfold PGconn.setChunkedRowsMode
    repeat' split
    all_goals exact ⟨id, rfl⟩
  libpqPutCopyData data := libpqOr_lasts _ _ fun c => by
    unfold PGconn.putCopyData
    repeat' split
    all_goals exact ⟨id, rfl⟩
  attemptRollback := .bind (libpq_lasts _ fun _ => ⟨id, rfl⟩) fun t => by cases t <;> exact .pure _
  exitPipelineMode := libpqOr_lasts _ _ fun c => by
    unfold PGconn.exitPipelineMode
    repeat' split
    all_goals first
      | exact ⟨id, rfl⟩
      | exact ⟨fun _ => rfl, rfl⟩
  pipelineSync := libpqOr_lasts _ _ fun c => by
    unfold PGconn.pipelineSync
    split <;> exact ⟨id, rfl⟩
  libpqSendPrepare name valid := libpqOr_lasts _ _ fun c => by
    unfold PGconn.sendPrepare
    repeat' split
    all_goals exact ⟨id, rfl⟩
  prepared _ _ := ⟨id, id⟩

end Connection

theorem Reaches.plain {W : World} {s : State DB} (h : Reaches W (fun _ c => c.pipelined = false) s) :
    s.conn.pg.Plain := by
  refine h.invariant (I := fun s => s.conn.pg.Plain) (fun db => rfl) fun s c s' hs hc hstep => ?_
  have hkept := perform_follows (W := W) Connection.calls_last hc s
  exact (Outcome.Sat.of_stateLeft hkept hstep.2).1 hs

end TaoPQ
