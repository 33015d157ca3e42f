import TaoPQ.Heap

/-!
# One command and its answer

What the functions of `connection` do outside pipeline mode, on a connection with a known session and known unread
items (`Connection.Shows`), when no notification handler throws.  A command that is sent while nothing is unread is
executed, and reading its answer to the end leaves nothing unread and the session as it is.  At every point where the
client waits, the connection may be lost instead (`Connection.Lost`).

What holds of reading an answer in whatever state the connection is goes by a preorder that the functions of libpq
for reading keep to (`Connection.ReadsFollow`).
-/

namespace TaoPQ

open Exec

variable {DB : Type}

/-! ### What reading an answer keeps -/

namespace Connection

variable {W : World} {R : Connection DB → Connection DB → Prop}

/-- The functions of libpq for reading an answer keep to a relation, and so does waiting. -/
structure ReadsFollow (W : World) (R : Connection DB → Connection DB → Prop) : Prop where
  wait : Follows R (wait W)
  handleNotifications : Follows R (handleNotifications W)
  libpqGetResult : Follows R (libpq .getResult PGconn.getResult)
  libpqGetCopyData : Follows R (libpq .getCopyData PGconn.getCopyData)
  libpqPutCopyEnd : ∀ m, Follows R (libpq .putCopyEnd fun c => c.putCopyEnd m)
  cancel : Follows R (cancel W)

namespace ReadsFollow

variable [IsPreorder (Connection DB) R]

theorem waitWhen (h : ReadsFollow W R) (busy : PGconn DB → Bool) : Follows R (Connection.waitWhen W busy) :=
  .bind .get fun _ => .ite h.wait (.pure _)

theorem getResult (h : ReadsFollow W R) : Follows R (Connection.getResult W) :=
  .bind (h.waitWhen _) fun _ => .bind h.libpqGetResult fun _ => .bind h.handleNotifications fun _ => .pure _

theorem getFatalError (h : ReadsFollow W R) : Follows R (Connection.getFatalError W) :=
  .bind h.getResult fun r => by
    cases r with
    | none => exact .throw _
    | some r => exact .ite (.pure _) (.throw _)

theorem consumeEmptyResult (h : ReadsFollow W R) : Follows R (Connection.consumeEmptyResult W) :=
  .bind h.getResult fun r => by
    cases r with
    | none => exact .pure _
    | some r => exact .throw _

theorem getCopyData (h : ReadsFollow W R) : Follows R (Connection.getCopyData W) :=
  .bind (h.waitWhen _) fun _ => .bind h.libpqGetCopyData fun d => by
    cases d with
    | row data => exact .pure _
    | done => exact .pure _
    | failed => exact .throw _

theorem putCopyEnd (h : ReadsFollow W R) (m : Option String) : Follows R (Connection.putCopyEnd W m) :=
  .bind (h.waitWhen _) fun _ => .bind (h.libpqPutCopyEnd m) fun _ => .ite (.pure _) (.throw _)

theorem clearCopyDataLoop (h : ReadsFollow W R) (n : Nat) : Follows R (Connection.clearCopyDataLoop W n) := by
  induction n with
  | zero => exact .pure _
  | succ n ih =>
    refine .bind h.getCopyData fun d => ?_
    cases d with
    | none => exact .pure _
    | some d => exact ih

theorem clearCopyData (h : ReadsFollow W R) : Follows R (Connection.clearCopyData W) :=
  .bind .get fun _ => h.clearCopyDataLoop _

omit [IsPreorder (Connection DB) R] in
theorem result [Std.Refl R] (r : PGresult) : Follows R (Connection.result r) := by
  unfold Connection.result
  cases r.status with
  | emptyQuery => exact .throw _
  | copyIn => exact .undefined
  | copyOut => exact .undefined
  | fatalError => exact .throw _
  | _ => exact .pure _

theorem fetchResult (h : ReadsFollow W R) : Follows R (Connection.fetchResult W) :=
  .bind h.getResult fun r => by
    cases r with
    | none => exact .throw _
    | some r =>
      dsimp only
      split
      · exact .bind (h.putCopyEnd _) fun _ => .bind h.getFatalError fun r =>
          .bind h.consumeEmptyResult fun _ => result r
      · exact .bind h.cancel fun _ => .bind h.clearCopyData fun _ => .bind h.getFatalError fun _ =>
          .bind h.consumeEmptyResult fun _ => .throw _
      · exact result r
      · exact result r
      · exact .bind h.consumeEmptyResult fun _ => result r

end ReadsFollow

end Connection

/-! ### Commands that are answered -/

/-- The result is returned to the program, and not thrown. -/
def PGresult.ok (r : PGresult) : Bool :=
  match r.status with
  | .commandOk | .tuplesOk => true
  | _ => false

namespace Connection

/-- The connection is open, and not in pipeline mode; `σ` is its session, and `items` is what is still to be read. -/
structure Shows (c : Connection DB) (σ : Session DB) (items : List (Item DB)) : Prop where
  isOpen : c.pg.isOpen = true
  session : c.pg.session = σ
  stream : c.pg.stream = items
  pipeline : c.pg.pipeline = false

/-- The connection is broken, or was closed by a timeout. -/
def Lost (c : Connection DB) : Prop := c.pg.isOpen = false

variable {W : World} {c : Connection DB} {σ : Session DB} {items : List (Item DB)} {ub : Prop}

/-! ### Waiting and reading -/

theorem wp_wait (hW : W.Quiet) (h : c.Shows σ items) :
    wp ub (wait W) (fun _ c' => c'.Shows σ items) (fun _ => Lost) c := by
  unfold wp wait
  have hh := hW.wait c.pg.clock
  cases hw : W.wait c.pg.clock with
  | ready => exact ⟨h.isOpen, h.session, h.stream, h.pipeline⟩
  | timeout => exact rfl
  | broken => exact rfl
  | handler => exact absurd hw hh

theorem wp_waitWhen (hW : W.Quiet) (busy : PGconn DB → Bool) (h : c.Shows σ items) :
    wp ub (waitWhen W busy) (fun _ c' => c'.Shows σ items) (fun _ => Lost) c := by
  simp only [waitWhen, wp_bind, wp_get, wp_ite, wp_pure]
  exact ⟨fun _ => wp_wait hW h, fun _ => h⟩

theorem wp_handleNotifications (hW : W.Quiet) (h : c.Shows σ items) {E : Exn → Connection DB → Prop} :
    wp ub (handleNotifications W) (fun _ c' => c'.Shows σ items) E c := by
  unfold wp handleNotifications
  rw [hW.handlerThrows]
  exact ⟨h.isOpen, h.session, h.stream, h.pipeline⟩

/-- `connection::get_result` reads one item, unless the connection is lost. -/
theorem wp_getResult (hW : W.Quiet) (h : c.Shows σ items) {r : Option PGresult} {rest : List (Item DB)}
    (hread : ∀ c : PGconn DB, c.isOpen = true → c.stream = items →
      c.getResult = ({ c with stream := rest }, r) ∨ c.getResult = (c, r) ∧ rest = items) :
    wp ub (getResult W) (fun r' c' => r' = r ∧ c'.Shows σ rest) (fun _ => Lost) c := by
  simp only [getResult, wp_bind, wp_libpq, wp_pure]
  refine wp_mono (wp_waitWhen hW _ h) (fun _ c₁ h₁ => ?_) (fun _ _ => id)
  have hafter : ({ c₁ with pg := (c₁.pg.getResult).1, calls := .getResult :: c₁.calls } : Connection DB).Shows σ rest ∧
      (c₁.pg.getResult).2 = r := by
    rcases hread c₁.pg h₁.isOpen h₁.stream with hr | ⟨hr, rfl⟩
    · rw [hr]
      exact ⟨⟨h₁.isOpen, h₁.session, rfl, h₁.pipeline⟩, rfl⟩
    · rw [hr]
      exact ⟨⟨h₁.isOpen, h₁.session, h₁.stream, h₁.pipeline⟩, rfl⟩
  exact wp_mono (wp_handleNotifications hW hafter.1) (fun _ _ h₂ => ⟨hafter.2, h₂⟩) (fun _ _ => id)

theorem wp_getResult_result (hW : W.Quiet) {r : PGresult} {rest : List (Item DB)} (h : c.Shows σ (.result r :: rest)) :
    wp ub (getResult W) (fun r' c' => r' = some r ∧ c'.Shows σ rest) (fun _ => Lost) c :=
  wp_getResult hW h fun c ho hs => .inl (by simp [PGconn.getResult, ho, hs])

theorem wp_getResult_null (hW : W.Quiet) {rest : List (Item DB)} (h : c.Shows σ (.null :: rest)) :
    wp ub (getResult W) (fun r' c' => r' = none ∧ c'.Shows σ rest) (fun _ => Lost) c :=
  wp_getResult hW h fun c ho hs => .inl (by simp [PGconn.getResult, ho, hs])

/-- The null pointer behind a result. -/
theorem wp_consumeEmptyResult (hW : W.Quiet) {rest : List (Item DB)} (h : c.Shows σ (.null :: rest)) :
    wp ub (consumeEmptyResult W) (fun _ c' => c'.Shows σ rest) (fun _ => Lost) c := by
  simp only [consumeEmptyResult, wp_bind]
  refine wp_mono (wp_getResult_null hW h) (fun r c' h' => ?_) (fun _ _ => id)
  obtain ⟨rfl, h'⟩ := h'
  exact h'

/-! ### Commands -/

/-- A command of taoPQ is executed when nothing is unread. -/
theorem wp_sendParams_control (h : c.Shows σ []) (k : Control) {E : Exn → Connection DB → Prop} :
    let answer := σ.control (W.commitRefused c.pg.clock) k
    wp ub (sendParams W (.control k))
      (fun _ c' => c'.Shows answer.1 [.result answer.2, .null] ∧ c'.pg.clock = c.pg.clock + 1) E c := by
  have hsend (byName : Bool) :
      c.pg.send W byName (.control k) =
        ({ ({ c.pg with session := (σ.control (W.commitRefused c.pg.clock) k).1 } : PGconn DB).tick with
          stream := [.result (σ.control (W.commitRefused c.pg.clock) k).2, .null] }, true) := by
    simp [PGconn.send, PGconn.run, h.isOpen, h.session, h.stream, h.pipeline]
  simp only [sendParams, libpqOr, wp_bind, wp_get, wp_libpq, hsend, ↓reduceIte, wp_pure]
  exact ⟨⟨h.isOpen, rfl, rfl, h.pipeline⟩, rfl⟩

/-- The answer to a command, if it is not a COPY, is read to its end. -/
theorem wp_fetchResult (hW : W.Quiet) {r : PGresult} (h : c.Shows σ [.result r, .null])
    (hr : r.status = .commandOk ∨ r.status = .tuplesOk ∨ r.status = .emptyQuery ∨ r.status = .fatalError) :
    wp ub (fetchResult W) (fun v c' => v = r ∧ r.ok = true ∧ c'.Shows σ [])
      (fun _ c' => c'.Lost ∨ r.ok = false ∧ c'.Shows σ []) c := by
  simp only [fetchResult, wp_bind]
  refine wp_mono (wp_getResult_result hW h) (fun v c₁ h₁ => ?_) (fun _ _ => .inl)
  obtain ⟨rfl, h₁⟩ := h₁
  have drained :
      wp ub (do consumeEmptyResult W; result r) (fun v c' => v = r ∧ r.ok = true ∧ c'.Shows σ [])
        (fun _ c' => c'.Lost ∨ r.ok = false ∧ c'.Shows σ []) c₁ := by
    rw [wp_bind]
    refine wp_mono (wp_consumeEmptyResult hW h₁) (fun _ c₂ h₂ => ?_) (fun _ _ => .inl)
    rcases hr with hr | hr | hr | hr <;> simp [result, PGresult.ok, hr, h₂]
  rcases hr with hr | hr | hr | hr <;> simpa only [hr] using drained

/-- The statuses of the answers to the commands of taoPQ. -/
theorem control_status (σ : Session DB) (refused : Bool) (k : Control) :
    (σ.control refused k).2.status = .commandOk ∨ (σ.control refused k).2.status = .fatalError := by
  unfold Session.control
  split <;> (try split) <;> (try split) <;> simp [PGresult.plain, PGresult.fatal]

/-- A command of taoPQ is sent, executed and answered. -/
theorem wp_control (hW : W.Quiet) (h : c.Shows σ []) (k : Control) :
    let answer := σ.control (W.commitRefused c.pg.clock) k
    wp ub (do sendParams W (.control k); fetchResult W)
      (fun v c' => v = answer.2 ∧ answer.2.ok = true ∧ c'.Shows answer.1 [])
      (fun _ c' => c'.Lost ∨ answer.2.ok = false ∧ c'.Shows answer.1 []) c := by
  intro answer
  rw [wp_bind]
  refine wp_mono (wp_sendParams_control h k) (fun _ c₁ h₁ => wp_fetchResult hW h₁.1 ?_) (fun _ _ => id)
  rcases control_status σ (W.commitRefused c.pg.clock) k with hs | hs
  · exact .inl hs
  · exact .inr (.inr (.inr hs))

/-- Nothing is sent while something is unread, or when the connection is lost. -/
theorem wp_sendParams_refused (cmd : Command DB)
    (hs : c.pg.isOpen = false ∨ c.pg.pipeline = false ∧ c.pg.stream ≠ []) {Q : Unit → Connection DB → Prop}
    {E : Exn → Connection DB → Prop} (hE : ∀ e call, E e { c with calls := call :: c.calls }) :
    wp ub (sendParams W cmd) Q E c := by
  have hsend (byName : Bool) : c.pg.send W byName cmd = (c.pg, false) := by
    rcases hs with hs | ⟨hp, hs⟩
    · simp [PGconn.send, hs]
    · by_cases ho : c.pg.isOpen = true <;> simp [PGconn.send, ho, hp, hs]
  simp only [sendParams, libpqOr, wp_bind, wp_get, wp_libpq, hsend, Bool.false_eq_true, ↓reduceIte, wp_throw]
  exact hE _ _

/-- A rollback is attempted when the connection is lost, and when a block is open and nothing is unread. -/
theorem wp_attemptRollback {Q : Bool → Connection DB → Prop}
    {E : Exn → Connection DB → Prop} :
    wp ub attemptRollback Q E c ↔
      Q (!c.pg.isOpen || c.pg.stream.isEmpty && c.pg.session.block.isSome)
        { c with calls := .transactionStatus :: c.calls } := by
  simp only [attemptRollback, transactionStatus, wp_bind, wp_libpq]
  by_cases ho : c.pg.isOpen = true
  · cases hs : c.pg.stream with
    | nil =>
      cases hb : c.pg.session.block with
      | none =>
        have hstatus : c.pg.transactionStatus = .idle := by simp [PGconn.transactionStatus, ho, hs, hb]
        simp [hstatus, ho]
      | some b =>
        cases hf : b.failed with
        | false =>
          have hstatus : c.pg.transactionStatus = .inTransaction := by
            simp [PGconn.transactionStatus, ho, hs, hb, hf]
          simp [hstatus, ho]
        | true =>
          have hstatus : c.pg.transactionStatus = .error := by simp [PGconn.transactionStatus, ho, hs, hb, hf]
          simp [hstatus, ho]
    | cons i rest =>
      have hstatus : c.pg.transactionStatus = .active := by simp [PGconn.transactionStatus, ho, hs]
      simp [hstatus, ho]
  · have hstatus : c.pg.transactionStatus = .unknown := by simp [PGconn.transactionStatus, ho]
    simp [hstatus, ho]

end Connection

/-! ### Through the current transaction -/

variable {W : World} {s : State DB} {a : Addr} {x : Object} {ub : Prop}

/-- The current transaction may talk to the server. -/
theorem wp_check_current (hx : s.object a = some x) (hc : x.connected = true) (ht : s.current = some a)
    {Q : Unit → State DB → Prop} {E : Exn → State DB → Prop} :
    wp ub (checkCurrentTransaction a) Q E s ↔ Q () s := by
  rw [wp_checkCurrentTransaction]
  simp [hx, hc, ht]

theorem wp_execute_current (hx : s.object a = some x) (hc : x.connected = true) (ht : s.current = some a)
    (cmd : Command DB) {Q : PGresult → State DB → Prop} {E : Exn → State DB → Prop} :
    wp ub (execute W a cmd) Q E s ↔
      wp ub (do Connection.sendParams W cmd; Connection.fetchResult W) (fun v c => Q v { s with conn := c })
        (fun e c => E e { s with conn := c }) s.conn := by
  simp only [execute, send, getResult, wp_bind, wp_check_current hx hc ht, wp_onConnection]
  refine iff_of_eq (congrArg (fun q => wp ub _ q _ s.conn) ?_)
  funext _ c
  exact propext (wp_check_current (s := { s with conn := c }) hx hc ht)

/-- The current transaction sends a command of taoPQ while nothing is unread. -/
theorem wp_execute_control (hW : W.Quiet) (hx : s.object a = some x) (hc : x.connected = true)
    (ht : s.current = some a) (hs : s.conn.pg.isOpen = true → s.conn.Shows s.conn.pg.session []) (k : Control) :
    let answer := s.conn.pg.session.control (W.commitRefused s.conn.pg.clock) k
    wp ub (execute W a (.control k))
      (fun v s' => v = answer.2 ∧ answer.2.ok = true ∧ ∃ c, s' = { s with conn := c } ∧
        s.conn.pg.isOpen = true ∧ c.Shows answer.1 [])
      (fun _ s' => ∃ c, s' = { s with conn := c } ∧
        (c.Lost ∨ answer.2.ok = false ∧ s.conn.pg.isOpen = true ∧ c.Shows answer.1 [])) s := by
  intro answer
  rw [wp_execute_current hx hc ht]
  by_cases ho : s.conn.pg.isOpen = true
  · refine wp_mono (Connection.wp_control hW (hs ho) k) (fun v c h => ?_) (fun _ c h => ⟨c, rfl, ?_⟩)
    · exact ⟨h.1, h.2.1, c, rfl, ho, h.2.2⟩
    · exact h.imp_right fun h => ⟨h.1, ho, h.2⟩
  · rw [wp_bind]
    refine Connection.wp_sendParams_refused _ (.inl (by simpa using ho)) fun e call => ?_
    exact ⟨_, rfl, .inl (by simpa [Connection.Lost] using ho)⟩

end TaoPQ
