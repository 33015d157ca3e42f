import TaoPQ.PipelineResults
import TaoPQ.Statements

/-!
# Statements through a pipeline

A pipeline sends statements without waiting for the results of those before them.  In a transaction block, whatever
the program reads in between, it does what `execute` does for one statement after the other: the results are the same,
except that behind an error, up to the next sync, statements are not executed, and the block and the connection are
left as they would be (`pipeline_agrees`).
-/

namespace TaoPQ

open Exec

variable {DB : Type}

/-! ### One after the other -/

/-- A COPY, which is not supported in a pipeline. -/
def Body.isCopy : Body DB → Bool
  | .copyFrom .. => true
  | .copyTo .. => true
  | _ => false

/-- What becomes of the call that reads a result. -/
def PGresult.outcome (r : PGresult) : Except Exn PGresult :=
  match r.status with
  | .emptyQuery => .error (.runtimeError "unexpected empty query")
  | .fatalError => .error (.sqlError r)
  | _ => .ok r

theorem Answer.outcome_eq (a : Answer) : a.outcome = a.final.outcome := rfl

namespace Session

/-- The server executes a statement, which was sent by its name or by its text, and answers. -/
def answer (byName : Bool) (u : Statement DB) (σ : Session DB) : Session DB × PGresult :=
  if byName && !σ.prepared.contains u.text then (σ.fail, .fatal)
  else
    match u.body with
    | .command effect n => σ.run effect ⟨.commandOk, .other, 0, 0, n⟩
    | .query effect columns rows => σ.run effect ⟨.tuplesOk, .other, columns, rows, some rows⟩
    | _ => (σ, .plain .emptyQuery .other)

/-- The server executes several statements.  Those with one of the names are sent by their names. -/
def answers (names : List String) : List (Statement DB) → Session DB → Session DB × List PGresult
  | [], σ => (σ, [])
  | u :: us, σ =>
    let next := σ.answer (names.contains u.text) u
    let rest := answers names us next.1
    (rest.1, next.2 :: rest.2)

end Session

/-- The program executes statements one after the other, and goes on when one of them fails. -/
def executeEach (W : World) (o : Addr) : List (Statement DB) → Prog DB (List (Except Exn PGresult))
  | [] => return []
  | u :: us => do
    let r ← Exec.catchAll
      (do
        let r ← execute W o (.user u)
        return .ok r)
      (fun e => return .error e)
    let rs ← executeEach W o us
    return r :: rs

/-! ### Through a pipeline -/

/-- What the program does with a pipeline. -/
inductive BatchCall (DB : Type) where
  | send (u : Statement DB)
  | sync
  | getResult
  | consumeSync

/-- A program that sends statements through a pipeline: the state, what it has sent, with `none` for a sync, what is
outstanding, what came of all calls of `get_result`, and the exceptions of the other calls. -/
structure Batch (DB : Type) where
  state : State DB
  history : List (Option (Statement DB))
  outstanding : List Sent
  completed : List (Except Exn PGresult)
  failures : List Exn

namespace Batch

/-- The program begins. -/
def start (s : State DB) : Batch DB := ⟨s, [], [], [], []⟩

/-- The statements that were sent. -/
def statements (history : List (Option (Statement DB))) : List (Statement DB) := history.filterMap id

/-- What was sent, without the statements themselves. -/
def kinds (history : List (Option (Statement DB))) : List Sent :=
  history.map fun x => if x.isSome then .query else .sync

variable (W : World) (p : Addr)

/-- One call on the pipeline `p`. -/
def step (x : Batch DB) : BatchCall DB → Option (Batch DB)
  | .send u =>
    match TaoPQ.send W p (.user u) x.state with
    | .ret _ s =>
      some { x with state := s, history := x.history ++ [some u], outstanding := x.outstanding ++ [.query] }
    | .throw e s => some { x with state := s, failures := x.failures ++ [e] }
    | .undefined => none
  | .sync =>
    match TaoPQ.pipelineSync p x.state with
    | .ret _ s => some { x with state := s, history := x.history ++ [none], outstanding := x.outstanding ++ [.sync] }
    | .throw e s => some { x with state := s, failures := x.failures ++ [e] }
    | .undefined => none
  | .getResult =>
    match TaoPQ.getResult W p x.state with
    | .ret r s =>
      some { x with state := s, outstanding := x.outstanding.tail, completed := x.completed ++ [.ok r] }
    | .throw e s =>
      some { x with state := s, outstanding := x.outstanding.tail, completed := x.completed ++ [.error e] }
    | .undefined => none
  | .consumeSync =>
    match TaoPQ.consumeSync W p x.state with
    | .ret _ s => some { x with state := s, outstanding := x.outstanding.tail }
    | .throw e s => some { x with state := s, failures := x.failures ++ [e] }
    | .undefined => none

/-- The program sends no COPY, and reads what is oldest. -/
def Orderly (x : Batch DB) : BatchCall DB → Prop
  | .send u => u.body.isCopy = false
  | .sync => True
  | .getResult => x.outstanding.head? = some .query
  | .consumeSync => x.outstanding.head? = some .sync

instance (x : Batch DB) : (c : BatchCall DB) → Decidable (x.Orderly c)
  | .send u => inferInstanceAs (Decidable (u.body.isCopy = false))
  | .sync => inferInstanceAs (Decidable True)
  | .getResult => inferInstanceAs (Decidable (x.outstanding.head? = some .query))
  | .consumeSync => inferInstanceAs (Decidable (x.outstanding.head? = some .sync))

/-- The results of a pipeline, made of those that the statements have one after the other: behind an error, up to the
next sync, statements are not executed.  The first argument says that there is an error before. -/
def aborting : Bool → List Sent → List PGresult → List PGresult
  | _, .sync :: sent, rs => aborting false sent rs
  | true, .query :: sent, _ :: rs => .plain .pipelineAborted .other :: aborting true sent rs
  | false, .query :: sent, r :: rs => r :: aborting (r.status = .fatalError) sent rs
  | _, _, _ => []

/-- There is an error behind the last sync. -/
def aborted : Bool → List Sent → List PGresult → Bool
  | _, .sync :: sent, rs => aborted false sent rs
  | true, .query :: sent, _ :: rs => aborted true sent rs
  | false, .query :: sent, r :: rs => aborted (r.status = .fatalError) sent rs
  | b, _, _ => b

end Batch

/-! ### The server -/

namespace Session

variable {σ : Session DB} {names : List String}

theorem answers_append (us vs : List (Statement DB)) (σ : Session DB) : σ.answers names (us ++ vs) =
    (((σ.answers names us).1.answers names vs).1,
      (σ.answers names us).2 ++ ((σ.answers names us).1.answers names vs).2) := by
  induction us generalizing σ with
  | nil => rfl
  | cons u us ih => simp only [List.cons_append, answers, ih]

theorem answers_concat (us : List (Statement DB)) (u : Statement DB) (σ : Session DB) :
    σ.answers names (us ++ [u]) = (((σ.answers names us).1.answer (names.contains u.text) u).1,
      (σ.answers names us).2 ++ [((σ.answers names us).1.answer (names.contains u.text) u).2]) :=
  answers_append us [u] σ

theorem length_answers (us : List (Statement DB)) (σ : Session DB) : (σ.answers names us).2.length = us.length := by
  induction us generalizing σ with
  | nil => rfl
  | cons u us ih => exact congrArg (· + 1) (ih _)

theorem failed_eq {b : Block DB} (hb : σ.block = some b) : σ.failed = b.failed := by
  rw [failed, hb]
  rfl

theorem fail_of_failed (hf : σ.failed = true) : σ.fail = σ := by
  rw [fail_eq, after_of_failed hf]

/-- What a statement does in a block: it fails, it does nothing, or it succeeds and changes the content. -/
theorem answer_cases (byName : Bool) (u : Statement DB) {b : Block DB} (hb : σ.block = some b) :
    σ.answer byName u = (σ.fail, .fatal) ∨
    σ.answer byName u = (σ, .plain .emptyQuery .other) ∨
    b.failed = false ∧ ∃ db ok, (ok.status = .commandOk ∨ ok.status = .tuplesOk) ∧
      σ.answer byName u = ({ σ with block := some { b with content := db } }, ok) := by
  have hrun : ∀ (effect : DB → Option DB) (ok : PGresult), ok.status = .commandOk ∨ ok.status = .tuplesOk →
      σ.run effect ok = (σ.fail, .fatal) ∨
      b.failed = false ∧ ∃ db ok', (ok'.status = .commandOk ∨ ok'.status = .tuplesOk) ∧
        σ.run effect ok = ({ σ with block := some { b with content := db } }, ok') := by
    intro effect ok hok
    unfold run
    rw [hb]
    cases hf : b.failed with
    | true =>
      have hfail : σ.fail = σ := fail_of_failed ((failed_eq hb).trans hf)
      exact .inl (by rw [hfail]; simp [hf])
    | false =>
      cases heffect : effect b.content with
      | none => exact .inl (by simp [hf, heffect])
      | some db => exact .inr ⟨rfl, db, ok, hok, by simp [hf, heffect]⟩
  unfold answer
  split
  · exact .inl rfl
  · cases u.body with
    | empty => exact .inr (.inl rfl)
    | command effect n =>
      rcases hrun effect ⟨.commandOk, .other, 0, 0, n⟩ (.inl rfl) with h | h
      · exact .inl h
      · exact .inr (.inr h)
    | query effect columns rows =>
      rcases hrun effect ⟨.tuplesOk, .other, columns, rows, some rows⟩ (.inr rfl) with h | h
      · exact .inl h
      · exact .inr (.inr h)
    | copyFrom load rows => exact .inr (.inl rfl)
    | copyTo columns rows completes => exact .inr (.inl rfl)

/-- A block is open before a statement and after it; an error leaves it failed, and in a failed block nothing
changes. -/
theorem answer_block (byName : Bool) (u : Statement DB) (h : σ.block.isSome = true) :
    (σ.answer byName u).1.block.isSome = true ∧
      ((σ.answer byName u).2.status = .fatalError → (σ.answer byName u).1.failed = true) ∧
      (σ.failed = true → (σ.answer byName u).1 = σ) ∧ (σ.answer byName u).2.isFinal = true := by
  obtain ⟨b, hb⟩ := Option.isSome_iff_exists.1 h
  rcases answer_cases byName u hb with hanswer | hanswer | ⟨hf, db, ok, hok, hanswer⟩
  · rw [hanswer]
    refine ⟨?_, fun _ => ?_, fun hf => fail_of_failed hf, rfl⟩
    · simp [fail, hb]
    · simp [fail, failed, hb]
  · rw [hanswer]
    have hstatus : (PGresult.plain .emptyQuery .other).status ≠ .fatalError := by decide
    exact ⟨h, fun hfatal => absurd hfatal hstatus, fun _ => rfl, rfl⟩
  · rw [hanswer]
    refine ⟨rfl, fun hstatus => ?_, fun hfailed => ?_, ?_⟩
    · rcases hok with hok | hok <;> rw [hok] at hstatus <;> cases hstatus
    · rw [failed_eq hb, hf] at hfailed
      cases hfailed
    · rcases hok with hok | hok <;> simp [PGresult.isFinal, hok]

end Session

namespace PGconn

/-- The server answers a statement that is no COPY with one result. -/
theorem run_user {W : World} (c : PGconn DB) (byName : Bool) {u : Statement DB} (hu : u.body.isCopy = false) :
    c.run W byName (.user u) =
      ({ c with session := (c.session.answer byName u).1 }, [.result (c.session.answer byName u).2, .null]) := by
  unfold run Session.answer
  simp only
  split
  · rfl
  · cases hbody : u.body with
    | empty => rfl
    | command effect n => rfl
    | query effect columns rows => rfl
    | copyFrom load rows => simp [hbody, Body.isCopy] at hu
    | copyTo columns rows completes => simp [hbody, Body.isCopy] at hu

end PGconn

/-! ### Statements that are executed one after the other -/

/-- The current transaction is in a block, its connection is open, and nothing is unread. -/
structure State.InBlock (s : State DB) (o : Addr) : Prop where
  object : ∃ x, s.object o = some x ∧ x.connected = true
  current : s.current = some o
  isOpen : s.conn.pg.isOpen = true
  pipeline : s.conn.pg.pipeline = false
  stream : s.conn.pg.stream = []
  block : s.conn.pg.session.block.isSome = true

/-- The state is as before, apart from the session, and for the time and the record of calls. -/
def State.Turns (s : State DB) (σ : Session DB) (s' : State DB) : Prop :=
  ∃ n calls, s' = { s with conn := { s.conn with pg := { s.conn.pg with session := σ, clock := n }, calls := calls } }

/-- What the server answers to a statement that is sent now. -/
def State.answer (s : State DB) (u : Statement DB) : Session DB × PGresult :=
  s.conn.pg.session.answer (s.conn.prepared.contains u.text) u

section

variable {W : World} {s s' s'' : State DB} {o : Addr} {σ σ' : Session DB}

theorem State.Turns.trans (h : s.Turns σ s') (h' : s'.Turns σ' s'') : s.Turns σ' s'' := by
  obtain ⟨n, calls, rfl⟩ := h
  obtain ⟨n', calls', rfl⟩ := h'
  exact ⟨n', calls', rfl⟩

theorem State.InBlock.of_turns (h : s.InBlock o) (hs : s.Turns σ s') (hσ : σ.block.isSome = true) : s'.InBlock o := by
  obtain ⟨n, calls, rfl⟩ := hs
  exact ⟨h.object, h.current, h.isOpen, h.pipeline, h.stream, hσ⟩

/-- A statement is executed. -/
theorem wp_execute_answer (h : s.InBlock o) {u : Statement DB} (hu : u.body.isCopy = false) :
    wp False (execute W o (.user u))
      (fun v s' => (s.answer u).2.outcome = .ok v ∧ s.Turns (s.answer u).1 s')
      (fun e s' => ¬ W.Reliable ∨ (s.answer u).2.outcome = .error e ∧ s.Turns (s.answer u).1 s') s := by
  obtain ⟨x, hx, hc⟩ := h.object
  have hfinal : (s.answer u).2.isFinal = true := (Session.answer_block _ u h.block).2.2.2
  have hrun : s.conn.pg.run W (s.conn.prepared.contains u.text) (.user u) =
      ({ s.conn.pg with session := (s.answer u).1 }, [.result (s.answer u).2, .null]) := PGconn.run_user _ _ hu
  have hsend : s.conn.pg.send W (s.conn.prepared.contains u.text) (.user u) =
      ({ s.conn.pg with session := (s.answer u).1, stream := [.result (s.answer u).2, .null] }, true) := by
    unfold PGconn.send
    rw [hrun]
    simp [h.isOpen, h.pipeline, h.stream]
  have hfetch : ∀ c : Connection DB, c.prepared = s.conn.prepared →
      c.pg = { s.conn.pg with session := (s.answer u).1, stream := [.result (s.answer u).2, .null] } →
      wp False (Connection.fetchResult W)
        (fun v c' => (s.answer u).2.outcome = .ok v ∧ s.Turns (s.answer u).1 { s with conn := c' })
        (fun e c' => ¬ W.Reliable ∨ (s.answer u).2.outcome = .error e ∧ s.Turns (s.answer u).1 { s with conn := c' })
        c := by
    intro c hprepared hc
    have ho : c.pg.isOpen = true := by rw [hc, h.isOpen]
    have hstream : c.pg.stream = [.result (s.answer u).2, .null] := by rw [hc]
    refine wp_mono (Connection.wp_fetchResult_final ho ⟨[], (s.answer u).2, by simp, .inl hfinal⟩ hstream) ?_ ?_
    · rintro v c ⟨hv, -, n, calls, rfl⟩
      exact ⟨hv, n, calls, by simp [hc, hprepared, h.stream]⟩
    · rintro e c (hw | ⟨he, n, calls, rfl⟩)
      · exact .inl hw
      · exact .inr ⟨he, n, calls, by simp [hc, hprepared, h.stream]⟩
  rw [wp_execute_current hx hc h.current]
  simp only [Connection.sendParams, wp_bind, wp_get]
  refine Connection.wp_libpqOr_true (congrArg Prod.snd hsend) ?_
  simp only [Command.text, hsend]
  exact hfetch _ rfl rfl

/-- All statements are executed. -/
theorem executeEach_answers (hW : W.Reliable) (h : s.InBlock o) {us : List (Statement DB)}
    (hus : ∀ u ∈ us, u.body.isCopy = false) : ∃ s',
    executeEach W o us s = .ret ((s.conn.pg.session.answers s.conn.prepared us).2.map PGresult.outcome) s' ∧
      s.Turns (s.conn.pg.session.answers s.conn.prepared us).1 s' := by
  induction us generalizing s with
  | nil => exact ⟨s, rfl, s.conn.pg.clock, s.conn.calls, rfl⟩
  | cons u us ih =>
    obtain ⟨hu, hus⟩ := List.forall_mem_cons.1 hus
    have hone : ∃ s₁, Exec.catchAll
        (do
          let r ← execute W o (.user u)
          return .ok r)
        (fun e => return .error e) s = (.ret (s.answer u).2.outcome s₁ : Outcome (State DB) Exn _) ∧
          s.Turns (s.answer u).1 s₁ := by
      rcases ret_or_throw (wp_execute_answer (W := W) h hu) with ⟨v, s₁, hv, hr, hs₁⟩ | ⟨e, s₁, he, hw | ⟨hr, hs₁⟩⟩
      · refine ⟨s₁, ?_, hs₁⟩
        unfold Exec.catchAll
        rw [bind_ret hv, hr]
        rfl
      · exact absurd hW hw
      · refine ⟨s₁, ?_, hs₁⟩
        unfold Exec.catchAll
        rw [bind_throw he, hr]
        rfl
    obtain ⟨s₁, hone, hs₁⟩ := hone
    have hblock := h.of_turns hs₁ (Session.answer_block _ u h.block).1
    obtain ⟨s', hrest, hs'⟩ := ih hblock hus
    have hs₁' := hs₁
    obtain ⟨n, calls, rfl⟩ := hs₁'
    refine ⟨s', ?_, hs₁.trans hs'⟩
    rw [executeEach, bind_ret hone, bind_ret hrest]
    rfl

end

/-! ### What a pipeline makes of the results -/

namespace Batch

section Aborting

variable {sent : List Sent} {rs : List PGresult} {b : Bool}

theorem aborting_sync (h : sent.count .query = rs.length) :
    aborting b (sent ++ [.sync]) rs = aborting b sent rs ∧ aborted b (sent ++ [.sync]) rs = false := by
  induction sent generalizing b rs with
  | nil => exact ⟨rfl, rfl⟩
  | cons i sent ih =>
    cases i with
    | sync => exact ih (by simpa using h)
    | query =>
      cases rs with
      | nil => simp at h
      | cons r rs =>
        have hrest : sent.count .query = rs.length := by simpa using h
        cases b with
        | true => exact ⟨congrArg (_ :: ·) (ih hrest).1, (ih hrest).2⟩
        | false => exact ⟨congrArg (_ :: ·) (ih hrest).1, (ih hrest).2⟩

theorem aborting_query (h : sent.count .query = rs.length) (r : PGresult) :
    aborting b (sent ++ [.query]) (rs ++ [r]) =
        aborting b sent rs ++ [if aborted b sent rs then .plain .pipelineAborted .other else r] ∧
      aborted b (sent ++ [.query]) (rs ++ [r]) = (aborted b sent rs || r.status = .fatalError) := by
  induction sent generalizing b rs with
  | nil =>
    obtain rfl : rs = [] := List.length_eq_zero_iff.1 h.symm
    cases b with
    | true => exact ⟨rfl, rfl⟩
    | false => exact ⟨rfl, rfl⟩
  | cons i sent ih =>
    cases i with
    | sync => exact ih (by simpa using h)
    | query =>
      cases rs with
      | nil => simp at h
      | cons q rs =>
        have hrest : sent.count .query = rs.length := by simpa using h
        cases b with
        | true => exact ⟨congrArg (_ :: ·) (ih hrest).1, (ih hrest).2⟩
        | false => exact ⟨congrArg (_ :: ·) (ih hrest).1, (ih hrest).2⟩

theorem length_aborting (h : sent.count .query = rs.length) : (aborting b sent rs).length = rs.length := by
  induction sent generalizing b rs with
  | nil => exact h
  | cons i sent ih =>
    cases i with
    | sync => exact ih (by simpa using h)
    | query =>
      cases rs with
      | nil => simp at h
      | cons r rs =>
        have hrest : sent.count .query = rs.length := by simpa using h
        cases b with
        | true => exact congrArg (· + 1) (ih hrest)
        | false => exact congrArg (· + 1) (ih hrest)

theorem count_kinds (history : List (Option (Statement DB))) :
    (kinds history).count .query = (statements history).length := by
  induction history with
  | nil => rfl
  | cons x history ih =>
    cases x with
    | none => simpa [kinds, statements] using ih
    | some u => simpa [kinds, statements] using ih

end Aborting

end Batch

/-! ### One call -/

namespace PGconn

/-- A statement is sent on a pipeline. -/
theorem send_user {W : World} {c : PGconn DB} (ho : c.isOpen = true) (hp : c.pipeline = true) (hc : c.inCopy = false)
    (byName : Bool) {u : Statement DB} (hu : u.body.isCopy = false) : c.send W byName (.user u) =
      if c.aborted then ({ c with stream := c.stream ++ [.result (.plain .pipelineAborted .other), .null] }, true)
      else
        ({ c with
          session := (c.session.answer byName u).1
          stream := c.stream ++ [.result (c.session.answer byName u).2, .null]
          aborted := (c.session.answer byName u).2.status = .fatalError }, true) := by
  unfold send
  rw [run_user c byName hu]
  cases c.aborted with
  | true => simp [ho, hp, hc]
  | false =>
    simp only [ho, hp, hc, Bool.not_true, Bool.false_eq_true, ↓reduceIte]
    rfl

end PGconn

/-! ### Any number of calls -/

namespace Batch

/-- The program as one that knows the answers. -/
def view (x : Batch DB) (answers : List Answer) : Pipelining DB :=
  ⟨x.state, answers, x.outstanding, [], x.completed.map fun r => ([], r), x.failures⟩

/-- What was sent has done to the session what it does when it is executed one after the other, and the answers are
made of the results that it has then. -/
structure InStep (s : State DB) (p : Addr) (x : Batch DB) : Prop where
  noCopy : ∀ u ∈ statements x.history, u.body.isCopy = false
  answers : ∃ answers : List Answer, (∀ a ∈ answers, a.partials = []) ∧
    answers.map Answer.final =
      aborting false (kinds x.history) (s.conn.pg.session.answers s.conn.prepared (statements x.history)).2 ∧
    Pipelining.Aligned p (x.view answers)
  session : x.state.conn.pg.session = (s.conn.pg.session.answers s.conn.prepared (statements x.history)).1
  prepared : x.state.conn.prepared = s.conn.prepared
  block : x.state.conn.pg.session.block.isSome = true
  aborted : x.state.conn.pg.aborted =
    aborted false (kinds x.history) (s.conn.pg.session.answers s.conn.prepared (statements x.history)).2
  failed : x.state.conn.pg.aborted = true → x.state.conn.pg.session.failed = true
  heap : SameHeap s x.state

theorem statements_concat (history : List (Option (Statement DB))) (u : Statement DB) :
    statements (history ++ [some u]) = statements history ++ [u] ∧
      kinds (history ++ [some u]) = kinds history ++ [.query] := by
  simp [statements, kinds]

theorem statements_sync (history : List (Option (Statement DB))) :
    statements (history ++ [none]) = statements history ∧ kinds (history ++ [none]) = kinds history ++ [.sync] := by
  simp [statements, kinds]

variable {W : World} {s : State DB} {p : Addr} {x : Batch DB}

/-- A statement is sent: behind an error it does nothing to the session, for the block has failed. -/
theorem InStep.step_send (h : InStep s p x) {u : Statement DB} (hu : u.body.isCopy = false) :
    ∃ x', step W p x (.send u) = some x' ∧ InStep s p x' := by
  obtain ⟨answers, hpartials, hfinals, haligned⟩ := h.answers
  have hp : x.state.Pipelines p := haligned.pipelines
  have hcopy : x.state.conn.pg.inCopy = false := haligned.inCopy
  obtain ⟨hstatements, hkinds⟩ := statements_concat x.history u
  have hcount : (kinds x.history).count .query =
      (s.conn.pg.session.answers s.conn.prepared (statements x.history)).2.length := by
    rw [count_kinds, Session.length_answers]
  have hnext : s.conn.pg.session.answers s.conn.prepared (statements x.history ++ [u]) = _ :=
    Session.answers_concat (statements x.history) u s.conn.pg.session
  obtain ⟨hblock, hfatal, hkeep, hfinal⟩ := Session.answer_block (s.conn.prepared.contains u.text) u h.block
  obtain ⟨calls, hsend⟩ := send_eq (W := W) hp hcopy (.user u)
  simp only [Command.text] at hsend
  rw [PGconn.send_user hp.isOpen hp.pipeline hcopy _ hu, h.prepared] at hsend
  rw [← h.session] at hnext
  obtain ⟨haborting, haborted⟩ := aborting_query (b := false) hcount
    (x.state.conn.pg.session.answer (s.conn.prepared.contains u.text) u).2
  rw [← h.aborted] at haborting haborted
  have hnoCopy : ∀ v ∈ statements (x.history ++ [some u]), v.body.isCopy = false := by
    rw [hstatements, List.forall_mem_append, List.forall_mem_singleton]
    exact ⟨h.noCopy, hu⟩
  have hpartials' : ∀ (r : PGresult) hr, ∀ a ∈ answers ++ [⟨[], r, by simp, hr⟩], a.partials = [] := by
    intro r hr a ha
    rcases List.mem_append.1 ha with ha | ha
    · exact hpartials a ha
    · rw [List.mem_singleton.1 ha]
  have hstep {s' : State DB} (hs : send W p (.user u) x.state = .ret () s') : step W p x (.send u) =
      some { x with state := s', history := x.history ++ [some u], outstanding := x.outstanding ++ [.query] } := by
    rw [step, hs]
  obtain ⟨c, hc⟩ := h.heap
  cases ha : x.state.conn.pg.aborted with
  | true =>
    rw [ha, if_pos rfl] at hsend haborting
    have hsession := hkeep (h.failed ha)
    refine ⟨_, hstep hsend, hnoCopy,
      ⟨answers ++ [⟨[], .plain .pipelineAborted .other, by simp, .inr rfl⟩], hpartials' _ _, ?_,
        haligned.sent _ (hp.of_conn hp.isOpen hp.pipeline) rfl⟩, ?_, rfl, h.block, ?_, fun _ => h.failed ha, ?_⟩
    · rw [List.map_append, hfinals, hstatements, hkinds, hnext, haborting]
      rfl
    · rw [hstatements, hnext, hsession]
    · rw [hstatements, hkinds, hnext, haborted, ha]
      rfl
    · exact ⟨_, by rw [hc]⟩
  | false =>
    rw [ha, if_neg Bool.false_ne_true] at hsend haborting
    refine ⟨_, hstep hsend, hnoCopy,
      ⟨answers ++ [⟨[], _, by simp, .inl hfinal⟩], hpartials' _ _, ?_,
        haligned.sent _ (hp.of_conn hp.isOpen hp.pipeline) rfl⟩, ?_, rfl, hblock, ?_, ?_, ?_⟩
    · rw [List.map_append, hfinals, hstatements, hkinds, hnext, haborting]
      rfl
    · rw [hstatements, hnext]
    · rw [hstatements, hkinds, hnext, haborted, ha]
      rfl
    · exact fun hfailed => hfatal (of_decide_eq_true hfailed)
    · exact ⟨_, by rw [hc]⟩

/-- A sync is sent: the next statement will be executed. -/
theorem InStep.step_sync (h : InStep s p x) : ∃ x', step W p x .sync = some x' ∧ InStep s p x' := by
  obtain ⟨answers, hpartials, hfinals, haligned⟩ := h.answers
  obtain ⟨hstatements, hkinds⟩ := statements_sync x.history
  have hp : x.state.Pipelines p := haligned.pipelines
  obtain ⟨calls, hsync⟩ := pipelineSync_eq hp haligned.inCopy
  obtain ⟨y, hy, haligned'⟩ := haligned.step_sync (W := W)
  simp only [Pipelining.step, view, hsync, Option.some.injEq] at hy
  subst hy
  have hcount : (kinds x.history).count .query =
      (s.conn.pg.session.answers s.conn.prepared (statements x.history)).2.length := by
    rw [count_kinds, Session.length_answers]
  obtain ⟨haborting, haborted⟩ := aborting_sync (b := false) hcount
  have hstep {s' : State DB} (hs : pipelineSync p x.state = .ret () s') : step W p x .sync =
      some { x with state := s', history := x.history ++ [none], outstanding := x.outstanding ++ [.sync] } := by
    rw [step, hs]
  obtain ⟨c, hc⟩ := h.heap
  refine ⟨_, hstep hsync, ?_, ⟨answers, hpartials, ?_, haligned'⟩, ?_, h.prepared, h.block, ?_, ?_, ?_⟩
  · rw [hstatements]
    exact h.noCopy
  · rw [hfinals, hstatements, hkinds, haborting]
  · rw [hstatements]
    exact h.session
  · rw [hstatements, hkinds, haborted]
  · exact fun hfailed => absurd hfailed Bool.false_ne_true
  · exact ⟨_, by rw [hc]⟩

/-- What is read does not matter for what is to be sent. -/
theorem InStep.of_reads (h : InStep s p x) {s' : State DB} {rest : List (Item DB)} (hs : x.state.ReadsTo rest s')
    {answers : List Answer} (hpartials : ∀ a ∈ answers, a.partials = [])
    (hfinals : answers.map Answer.final =
      aborting false (kinds x.history) (s.conn.pg.session.answers s.conn.prepared (statements x.history)).2)
    {sent : List Sent} {completed : List (Except Exn PGresult)}
    (haligned : Pipelining.Aligned p (view ⟨s', x.history, sent, completed, x.failures⟩ answers)) :
    InStep s p ⟨s', x.history, sent, completed, x.failures⟩ := by
  obtain ⟨c, rfl, n, calls, rfl⟩ := hs
  obtain ⟨c, hc⟩ := h.heap
  exact ⟨h.noCopy, ⟨answers, hpartials, hfinals, haligned⟩, h.session, h.prepared, h.block, h.aborted, h.failed,
    ⟨_, by rw [hc]⟩⟩

theorem InStep.step_consumeSync (hW : W.Reliable) (h : InStep s p x) (hq : x.outstanding.head? = some .sync) :
    ∃ x', step W p x .consumeSync = some x' ∧ InStep s p x' := by
  obtain ⟨answers, hpartials, hfinals, haligned⟩ := h.answers
  have hp : x.state.Pipelines p := haligned.pipelines
  obtain ⟨sent, hsent, -, hstream⟩ := haligned.sync hq
  obtain ⟨_, s', hs', hreads⟩ := exists_ret
    (wp_mono (wp_consumeSync hp hstream) (fun _ _ => id) (fun _ _ he => he hW))
  obtain ⟨y, hy, haligned'⟩ := haligned.step_consumeSync hW hq
  simp only [Pipelining.step, view, hs', Option.some.injEq] at hy
  subst hy
  exact ⟨{ x with state := s', outstanding := x.outstanding.tail }, by rw [step, hs'],
    h.of_reads hreads hpartials hfinals haligned'⟩

/-- A result is read: it is the one that is next among those of the statements. -/
theorem InStep.step_getResult (hW : W.Reliable) (h : InStep s p x) (hq : x.outstanding.head? = some .query) :
    ∃ x', step W p x .getResult = some x' ∧ InStep s p x' := by
  obtain ⟨answers, hpartials, hfinals, haligned⟩ := h.answers
  obtain ⟨sent, a, more, rest, hsent, hanswers, hnone, hstream⟩ := haligned.query hq
  have hp : x.state.Pipelines p := haligned.pipelines
  have ha : a.partials = [] := hpartials a (List.mem_of_mem_drop (hanswers ▸ List.mem_cons_self))
  obtain rfl : rest = [] := by simpa [ha, view] using hnone
  rcases ret_or_throw (wp_getResult_final (W := W) hp a hstream) with
    ⟨v, s', hs', hv, -, hreads⟩ | ⟨e, s', hs', hw | ⟨he, hreads⟩⟩
  · obtain ⟨hp', hstream'⟩ := hp.of_reads hreads
    have haligned' := haligned.complete hsent hanswers ha hp' hstream'
    rw [hv] at haligned'
    exact ⟨{ x with state := s', outstanding := x.outstanding.tail, completed := x.completed ++ [.ok v] },
      by rw [step, hs'], h.of_reads hreads hpartials hfinals (by simpa [view] using haligned')⟩
  · exact absurd hW hw
  · obtain ⟨hp', hstream'⟩ := hp.of_reads hreads
    have haligned' := haligned.complete hsent hanswers ha hp' hstream'
    rw [he] at haligned'
    exact ⟨{ x with state := s', outstanding := x.outstanding.tail, completed := x.completed ++ [.error e] },
      by rw [step, hs'], h.of_reads hreads hpartials hfinals (by simpa [view] using haligned')⟩

/-- Every call that is made in order keeps the pipeline in step, and its behaviour is defined. -/
theorem InStep.step (hW : W.Reliable) (h : InStep s p x) (c : BatchCall DB) (hc : x.Orderly c) :
    ∃ x', Batch.step W p x c = some x' ∧ InStep s p x' := by
  cases c with
  | send u => exact h.step_send hc
  | sync => exact h.step_sync
  | getResult => exact h.step_getResult hW hc
  | consumeSync => exact h.step_consumeSync hW hc

theorem InStep.run (hW : W.Reliable) (h₀ : InStep s p (start s)) (h : Run (start s) (Batch.step W p) Orderly x) :
    InStep s p x := by
  refine h.invariant h₀ fun x c x' hx hc hstep => ?_
  obtain ⟨x'', hstep', hx''⟩ := hx.step hW c hc
  rw [hstep'] at hstep
  exact Option.some.inj hstep ▸ hx''

/-- Without errors, the results are those that the statements have one after the other. -/
theorem aborting_of_forall {sent : List Sent} {rs : List PGresult} (hcount : sent.count .query = rs.length)
    (h : ∀ r ∈ rs, r.status ≠ .fatalError) : aborting false sent rs = rs := by
  induction sent generalizing rs with
  | nil => exact (List.length_eq_zero_iff.1 hcount.symm).symm
  | cons i sent ih =>
    cases i with
    | sync => exact ih (by simpa using hcount) h
    | query =>
      cases rs with
      | nil => simp at hcount
      | cons r rs =>
        obtain ⟨hr, hrs⟩ := List.forall_mem_cons.1 h
        simp only [aborting, hr, decide_false]
        exact congrArg (r :: ·) (ih (by simpa using hcount) hrs)

end Batch

/-! ### The beginning and the end -/

/-- The state in which a new pipeline `p` leaves the program, above the transaction `o`. -/
def State.piped (s : State DB) (o p : Addr) : State DB :=
  { s with
    conn := ⟨{ s.conn.pg with pipeline := true, aborted := false }, s.conn.prepared, .enterPipelineMode :: s.conn.calls⟩
    current := some p
    objects := s.objects.insert p ⟨.pipeline (some o), true⟩
    held := p :: s.held }

section

variable {W : World} {s s' : State DB} {o p : Addr}

theorem pipeline_piped (h : s.InBlock o) : pipeline o p s = .ret () (s.piped o p) := by
  obtain ⟨x, hx, hc⟩ := h.object
  have hmode : s.conn.pg.enterPipelineMode = ({ s.conn.pg with pipeline := true, aborted := false }, true) := by
    simp [PGconn.enterPipelineMode, h.isOpen, h.pipeline, h.stream]
  have hpipeline : wp False (pipeline o p) (fun _ s' => s' = s.piped o p) (fun _ _ => False) s := by
    rw [pipeline, wp_bind, wp_check_current hx hc h.current]
    simp only [wp_bind, wp_get, h.current, wp_derefPointer_some, wp_onConnection]
    refine ⟨fun _ => Connection.wp_libpqOr_true (congrArg Prod.snd hmode) ?_, fun hnone => ?_⟩
    · rw [hmode]
      rfl
    · rw [hx] at hnone
      cases hnone
  obtain ⟨_, s', hs', rfl⟩ := exists_ret hpipeline
  exact hs'

theorem State.InBlock.pipelines (h : s.InBlock o) : (s.piped o p).Pipelines p :=
  ⟨⟨some o, (State.object_insert s p _ p).trans (if_pos rfl)⟩, rfl, h.isOpen, rfl⟩

theorem Batch.InStep.start (h : s.InBlock o) : InStep (s.piped o p) p (Batch.start (s.piped o p)) :=
  ⟨by simp [Batch.start, statements], ⟨[], by simp, rfl, .start h.pipelines h.stream⟩, rfl, rfl, h.block, rfl,
    fun hfailed => absurd hfailed Bool.false_ne_true, refl (r := SameHeap) _⟩

/-- The pipeline is finished when all is read: the transaction below it goes on. -/
theorem finish_inBlock (h : s.InBlock o) (ho : o ∈ s.held) (hp : s.object p = none) (hs : SameHeap (s.piped o p) s')
    (hpipes : s'.Pipelines p) (hstream : s'.conn.pg.stream = []) (hblock : s'.conn.pg.session.block.isSome = true) :
    ∃ s'', finish W p s' = .ret () s'' ∧ s''.InBlock o ∧ s''.conn.pg.session = s'.conn.pg.session := by
  obtain ⟨x, hx, hc⟩ := h.object
  have hne : o ≠ p := by
    rintro rfl
    rw [hx] at hp
    cases hp
  obtain ⟨c, rfl⟩ := hs
  have hobject : ({ s.piped o p with conn := c } : State DB).object p = some ⟨.pipeline (some o), true⟩ :=
    (State.object_insert s p _ p).trans (if_pos rfl)
  have hmode : c.pg.exitPipelineMode = ({ c.pg with pipeline := false }, true) := by
    have hopen := hpipes.isOpen
    dsimp only at hopen hstream
    simp [PGconn.exitPipelineMode, hopen, hstream]
  have hfinish : wp False (finish W p) (fun _ s'' => s''.InBlock o ∧ s''.conn.pg.session = c.pg.session)
      (fun _ _ => False) { s.piped o p with conn := c } := by
    simp only [finish, finishWith, wp_bind, wp_deref, hobject, Option.some.injEq, forall_eq', reduceCtorEq,
      false_implies, and_true, wp_setCurrent, wp_putObject, wp_andFinally, wp_onConnection]
    refine Connection.wp_libpqOr_true (congrArg Prod.snd hmode) (wp_release_owns (.inl ?_) ?_)
    · exact List.mem_cons_of_mem _ ho
    · rw [hmode]
      refine ⟨⟨⟨x, ?_, hc⟩, rfl, hpipes.isOpen, rfl, hstream, hblock⟩, rfl⟩
      simp only [State.object, State.piped, AList.lookup_insert_ne hne]
      exact hx
  obtain ⟨_, s'', hs'', hs₂⟩ := exists_ret hfinish
  exact ⟨s'', hs'', hs₂⟩

end

/-! ### The theorem -/

section

variable {W : World} {s : State DB} {o p : Addr}

/-- Through a pipeline in a transaction block, statements do what they do one after the other.  In every program that
reads what is oldest, in whatever order it sends and reads: no call fails, each `get_result` has the outcome of the
statement with the same number, except that behind an error, up to the next sync, statements are not executed, and the
session is the same.  When all is read, `finish` goes back to the transaction. -/
theorem pipeline_agrees (hW : W.Reliable) (h : s.InBlock o) (ho : o ∈ s.held) (hp : s.object p = none) :
    ∃ s₁, pipeline o p s = .ret () s₁ ∧ ∀ x, Run (Batch.start s₁) (Batch.step W p) Batch.Orderly x →
      ∃ rs s', executeEach W o (Batch.statements x.history) s = .ret (rs.map PGresult.outcome) s' ∧
        x.failures = [] ∧
        x.completed.length + x.outstanding.count .query = rs.length ∧
        x.completed =
          ((Batch.aborting false (Batch.kinds x.history) rs).take x.completed.length).map PGresult.outcome ∧
        ((∀ r ∈ rs, r.status ≠ .fatalError) →
          x.completed = (rs.take x.completed.length).map PGresult.outcome) ∧
        x.state.conn.pg.session = s'.conn.pg.session ∧
        (∀ c, x.Orderly c → ∃ x', Batch.step W p x c = some x') ∧
        (x.outstanding = [] → ∃ s₂, finish W p x.state = .ret () s₂ ∧ s₂.InBlock o ∧
          s₂.conn.pg.session = s'.conn.pg.session) := by
  refine ⟨s.piped o p, pipeline_piped h, fun x hx => ?_⟩
  have hstep : Batch.InStep (s.piped o p) p x := .run hW (.start h) hx
  obtain ⟨answers, -, hfinals, haligned⟩ := hstep.answers
  obtain ⟨s', hs', n, calls, rfl⟩ := executeEach_answers hW h hstep.noCopy
  generalize hrs : s.conn.pg.session.answers s.conn.prepared (Batch.statements x.history) = next at hs'
  have hanswers : (s.piped o p).conn.pg.session.answers (s.piped o p).conn.prepared (Batch.statements x.history) =
      next := hrs
  rw [hanswers] at hfinals
  have hsession : x.state.conn.pg.session = next.1 := hstep.session.trans (congrArg Prod.fst hanswers)
  have hlength : (Batch.statements x.history).length = next.2.length := by
    rw [← hrs, Session.length_answers]
  have hcount : (Batch.kinds x.history).count .query = next.2.length := by
    rw [Batch.count_kinds, hlength]
  have hcompleted : x.completed =
      ((Batch.aborting false (Batch.kinds x.history) next.2).take x.completed.length).map PGresult.outcome := by
    have houtcomes := congrArg (List.map Prod.snd) haligned.completed
    rw [← hfinals, ← List.map_take, List.map_map]
    simpa [Batch.view, Function.comp_def, Answer.completed, Answer.outcome_eq] using houtcomes
  refine ⟨next.2, _, hs', haligned.failures, ?_, hcompleted, fun hok => ?_, ?_, fun c hc => ?_, fun hnone => ?_⟩
  · have hqueries := haligned.queries
    have hall := congrArg List.length hfinals
    rw [List.length_map, Batch.length_aborting hcount] at hall
    simpa [Batch.view, hall] using hqueries
  · rw [Batch.aborting_of_forall hcount hok] at hcompleted
    exact hcompleted
  · exact hsession
  · obtain ⟨x', hx', -⟩ := hstep.step hW c hc
    exact ⟨x', hx'⟩
  · have hstream : x.state.conn.pg.stream = [] := by
      simpa [Batch.view, hnone, Pipelining.items] using haligned.stream
    obtain ⟨s₂, hs₂, hblock, hsession₂⟩ := finish_inBlock h ho hp hstep.heap haligned.pipelines hstream hstep.block
    exact ⟨s₂, hs₂, hblock, hsession₂.trans hsession⟩

/-- `connection::transaction` was called on a new connection. -/
def State.inTransaction (db : DB) : State DB :=
  { State.init db with
    conn := ⟨{ PGconn.init db with session := ⟨db, some ⟨db, false, []⟩, []⟩, clock := 5 }, [],
      [.getResult, .getResult, .sendQueryParams]⟩
    current := some 0
    objects := AList.insert 0 ⟨.topLevelTransaction, true⟩ ∅
    held := [0] }

/-- The second of four statements fails.  The third is not executed, and the fourth, behind the sync, is refused in the
failed block, as it is when the statements are executed one after the other. -/
theorem pipeline_agrees_error : ∃ (s₁ : State Nat) (x : Batch Nat) (rs : List PGresult) (s' s₂ : State Nat),
    transaction .calm 0 .defaultIsolationLevel .defaultAccessMode (State.init 0) = .ret () (State.inTransaction 0) ∧
      pipeline 0 1 (State.inTransaction 0) = .ret () s₁ ∧
      Run (Batch.start s₁) (Batch.step .calm 1) Batch.Orderly x ∧
      executeEach .calm 0 (Batch.statements x.history) (State.inTransaction 0) = .ret (rs.map PGresult.outcome) s' ∧
      x.completed.map (fun r => r.toOption.map PGresult.status) =
        [some .commandOk, none, some .pipelineAborted, none] ∧
      x.completed = ((Batch.aborting false (Batch.kinds x.history) rs).take 4).map PGresult.outcome ∧
      finish .calm 1 x.state = .ret () s₂ ∧ s₂.conn.pg.session = s'.conn.pg.session := by
  have hblock : (State.inTransaction 0).InBlock 0 := ⟨⟨_, rfl, rfl⟩, rfl, rfl, rfl, rfl, rfl⟩
  obtain ⟨s₁, hs₁, hall⟩ := pipeline_agrees (p := 1) World.calm_reliable hblock List.mem_cons_self rfl
  obtain rfl : (State.inTransaction 0).piped 0 1 = s₁ := (Outcome.ret.inj ((pipeline_piped hblock).symm.trans hs₁)).2
  let ok : Statement Nat := ⟨"UPDATE t SET n = n + 1", .command (fun n => some (n + 1)) (some 1)⟩
  let bad : Statement Nat := ⟨"UPDATE t SET n = n / 0", .command (fun _ => none) none⟩
  obtain ⟨x, hx, houtstanding, hcompleted⟩ := Run.of_trace (Batch.start ((State.inTransaction 0).piped 0 1))
    (Batch.step .calm 1) Batch.Orderly
    [.send ok, .send bad, .getResult, .send ok, .sync, .send ok, .getResult, .getResult, .consumeSync, .getResult]
    (P := fun x => x.outstanding = [] ∧ x.completed.map (fun r => r.toOption.map PGresult.status) =
      [some .commandOk, none, some .pipelineAborted, none])
    (by decide +kernel)
  obtain ⟨rs, s', hs', -, -, hresults, -, -, -, hfinish⟩ := hall x hx
  obtain ⟨s₂, hs₂, -, hsession⟩ := hfinish houtstanding
  have hlength : x.completed.length = 4 := by simpa using congrArg List.length hcompleted
  rw [hlength] at hresults
  exact ⟨_, x, rs, s', s₂, rfl, hs₁, hx, hs', hcompleted, hresults, hs₂, hsession⟩

end

end TaoPQ
