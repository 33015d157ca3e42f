import TaoPQ.Draining
import TaoPQ.Lib.Runs

/-!
# The results of a pipeline

The calls on a pipeline from which results come: queries and syncs are sent, and their answers are read later.  libpq
keeps the answers in order.  A query is answered by partial results, if the program asked for rows or chunks, by a
final result and by a null pointer, and a sync by one result alone.  As long as the answers arrive and no notification
handler throws, `get_result` and `consume_sync` read one answer each, and never a part of the next one
(`results_matched`).  When a handler throws, the result that was just read is lost, and the next `get_result` finds the
null pointer behind it (`handler_loses_result`).
-/

namespace TaoPQ

open Exec

variable {DB : Type}

/-- The answer to a query: the partial results of the single-row or chunk mode, and the final result. -/
structure Answer where
  partials : List PGresult
  final : PGresult
  isPartial : ∀ r ∈ partials, r.isPartial = true
  isFinal : final.isFinal = true ∨ final.status = .pipelineAborted

namespace Answer

/-- The items of libpq for an answer. -/
def items (a : Answer) : List (Item DB) := a.partials.map .result ++ [.result a.final, .null]

/-- What becomes of the `get_result` that reads the final result: an error of the server is thrown. -/
def outcome (a : Answer) : Except Exn PGresult :=
  match a.final.status with
  | .emptyQuery => .error (.runtimeError "unexpected empty query")
  | .fatalError => .error (.sqlError a.final)
  | _ => .ok a.final

end Answer

/-! ### Rows in portions -/

/-- How the rows of a query come: one by one, or in chunks of a size. -/
inductive RowsMode where
  | single
  | chunk (rows : Int)

namespace RowsMode

/-- The call by which a program asks for it, right behind `send`. -/
def set {DB : Type} (o : Addr) : RowsMode → Prog DB Unit
  | single => setSingleRowMode o
  | chunk rows => setChunkMode o rows

/-- The size of a chunk is positive. -/
def Positive : RowsMode → Prop
  | single => True
  | chunk rows => 0 < rows

instance : (m : RowsMode) → Decidable m.Positive
  | single => inferInstanceAs (Decidable True)
  | chunk rows => inferInstanceAs (Decidable (0 < rows))

/-- The sizes of the portions in which so many rows come. -/
def sizes (n : Nat) : RowsMode → List Nat
  | single => List.replicate n 1
  | chunk rows =>
    List.replicate (n / rows.toNat) rows.toNat ++ if n % rows.toNat = 0 then [] else [n % rows.toNat]

/-- A result with a portion of the rows. -/
def portion (columns : Nat) (m : RowsMode) (n : Nat) : PGresult :=
  match m with
  | single => ⟨.singleTuple, .other, columns, n, none⟩
  | chunk _ => ⟨.tuplesChunk, .other, columns, n, none⟩

theorem portion_isPartial {columns n : Nat} {m : RowsMode} : (portion columns m n).isPartial = true := by
  cases m <;> rfl

/-- What is to be read when `libpq` divides a result that is not an error into portions. -/
def items {DB : Type} (m : RowsMode) (r : PGresult) (rest : List (Item DB)) : List (Item DB) :=
  if r.status = .tuplesOk then
    (m.sizes r.ntuples).map (fun n => .result (m.portion r.nfields n)) ++ .result { r with ntuples := 0 } :: rest
  else .result r :: rest

end RowsMode

namespace Answer

/-- The rows come in portions, also those before an error. -/
def inPortions (a : Answer) (m : RowsMode) (columns : Nat) (before : List Nat) : Answer :=
  if h : a.final.status = .tuplesOk then
    { partials := (m.sizes a.final.ntuples).map (m.portion a.final.nfields)
      final := { a.final with ntuples := 0 }
      isPartial := List.forall_mem_map.2 fun _ _ => RowsMode.portion_isPartial
      isFinal := .inl ((PGresult.isFinal_iff _).2 (by simp [h])) }
  else if a.final.status = .fatalError then
    { a with
      partials := before.map (m.portion columns)
      isPartial := List.forall_mem_map.2 fun _ _ => RowsMode.portion_isPartial }
  else a

end Answer

/-! ### What the server answers -/

namespace PGconn

variable {W : World}

/-- What the server answers to a command on a pipeline.  Behind an error, up to the next sync, it does not execute it. -/
def reply (W : World) (byName : Bool) (cmd : Command DB) (c : PGconn DB) : PGresult :=
  if c.aborted then .plain .pipelineAborted .other else pipelineReply (c.run W byName cmd).2

/-- On a pipeline, the only result for a command is a final one. -/
theorem pipelineReply_isFinal (c : PGconn DB) (byName : Bool) (cmd : Command DB) :
    (pipelineReply (c.run W byName cmd).2).isFinal = true := by
  cases cmd with
  | control k =>
    rcases Connection.control_status c.session (W.commitRefused c.clock) k with h | h
    · exact (PGresult.isFinal_iff _).2 (.inr (.inl h))
    · exact (PGresult.isFinal_iff _).2 (.inr (.inr (.inr h)))
  | deallocate name => exact deallocate_isFinal _ name
  | user u =>
    simp only [run]
    split
    · rfl
    · cases u.body with
      | empty => rfl
      | command effect n => exact run_isFinal _ _ rfl
      | query effect columns rows => exact run_isFinal _ _ rfl
      | copyFrom load rows =>
        simp only [runUser]
        split <;> rfl
      | copyTo columns rows completes =>
        simp only [runUser]
        repeat' split
        all_goals rfl

theorem reply_isFinal (byName : Bool) (cmd : Command DB) (c : PGconn DB) :
    (c.reply W byName cmd).isFinal = true ∨ (c.reply W byName cmd).status = .pipelineAborted := by
  unfold reply
  split
  · exact .inr rfl
  · exact .inl (pipelineReply_isFinal c byName cmd)

/-- The answer to a command: its rows come at once, unless the program asks for portions. -/
def answer (W : World) (byName : Bool) (cmd : Command DB) (c : PGconn DB) : Answer :=
  ⟨[], c.reply W byName cmd, by simp, reply_isFinal byName cmd c⟩

/-- Executing a command leaves the connection as it is, apart from the session and the time. -/
theorem run_conn (W : World) (byName : Bool) (cmd : Command DB) (c : PGconn DB) :
    ∃ σ n, (c.run W byName cmd).1 = { c with session := σ, clock := n } := by
  cases cmd with
  | control k => exact ⟨_, _, rfl⟩
  | deallocate name => exact ⟨_, c.clock, rfl⟩
  | user u =>
    simp only [run]
    split
    · exact ⟨_, c.clock, rfl⟩
    · cases u.body with
      | empty => exact ⟨_, c.clock, rfl⟩
      | command effect n => exact ⟨_, c.clock, rfl⟩
      | query effect columns rows => exact ⟨_, c.clock, rfl⟩
      | copyFrom load rows =>
        simp only [runUser]
        split <;> exact ⟨_, c.clock, rfl⟩
      | copyTo columns rows completes =>
        simp only [runUser]
        repeat' split
        all_goals exact ⟨_, c.clock, rfl⟩

/-- What is sent on a pipeline is answered behind all that is unread. -/
theorem send_answered {c : PGconn DB} (ho : c.isOpen = true) (hp : c.pipeline = true) (hc : c.inCopy = false)
    (byName : Bool) (cmd : Command DB) : ∃ σ n aborted, c.send W byName cmd =
      ({ c with
        session := σ, clock := n, stream := c.stream ++ (c.answer W byName cmd).items, aborted := aborted }, true) := by
  unfold send
  by_cases ha : c.aborted = true
  · refine ⟨c.session, c.clock, true, ?_⟩
    simp [ho, hp, hc, ha, answer, reply, Answer.items]
  · obtain ⟨σ, n, hrun⟩ := run_conn W byName cmd c
    generalize hr : c.run W byName cmd = answered at hrun
    obtain ⟨c', items⟩ := answered
    obtain rfl : c' = { c with session := σ, clock := n } := hrun
    refine ⟨σ, n, decide ((pipelineReply items).status = .fatalError), ?_⟩
    simp [ho, hp, hc, ha, answer, reply, Answer.items, hr]

/-- Before an error, libpq delivers the rows that the server had sent by then. -/
def deliver (before : List PGresult) (c : PGconn DB) : PGconn DB :=
  match c.stream with
  | .result r :: _ => if r.status = .fatalError then { c with stream := before.map .result ++ c.stream } else c
  | _ => c

variable {c : PGconn DB} {r : PGresult} {rest : List (Item DB)}

theorem deliver_fatal (hs : c.stream = .result r :: rest) (hr : r.status = .fatalError) (before : List PGresult) :
    c.deliver before = { c with stream := before.map .result ++ .result r :: rest } := by
  rw [deliver, hs]
  exact if_pos hr

theorem deliver_eq_self (hs : c.stream = .result r :: rest) (hr : r.status ≠ .fatalError) (before : List PGresult) :
    c.deliver before = c := by
  rw [deliver, hs]
  exact if_neg hr

@[simp] theorem deliver_isOpen (c : PGconn DB) (before : List PGresult) : (c.deliver before).isOpen = c.isOpen := by
  unfold deliver
  repeat' split
  all_goals rfl

@[simp] theorem deliver_pipeline (c : PGconn DB) (before : List PGresult) :
    (c.deliver before).pipeline = c.pipeline := by
  unfold deliver
  repeat' split
  all_goals rfl

/-- Rows that are divided have no error behind them, before which there would be anything to deliver. -/
private theorem deliver_divided {m : RowsMode} (hr : r.status = .tuplesOk) (hs : c.stream = m.items r rest)
    (before : List PGresult) : c.deliver before = c := by
  rw [RowsMode.items, if_pos hr] at hs
  cases hsizes : m.sizes r.ntuples with
  | nil =>
    rw [hsizes, List.map_nil, List.nil_append] at hs
    exact deliver_eq_self hs (by simp [hr]) before
  | cons n sizes =>
    rw [hsizes, List.map_cons, List.cons_append] at hs
    refine deliver_eq_self hs ?_ before
    cases m <;> simp [RowsMode.portion]

/-- What is unread is the answer in portions. -/
theorem deliver_items {m : RowsMode} {a : Answer} (ha : a.partials = []) (columns : Nat) (before : List Nat)
    (hs : c.stream = m.items a.final (.null :: rest)) :
    (c.deliver (before.map (m.portion columns))).stream = (a.inPortions m columns before).items ++ rest := by
  unfold Answer.inPortions
  by_cases hok : a.final.status = .tuplesOk
  · rw [dif_pos hok, deliver_divided hok hs, hs, RowsMode.items, if_pos hok]
    simp [Answer.items]
  · rw [RowsMode.items, if_neg hok] at hs
    rw [dif_neg hok]
    by_cases hfatal : a.final.status = .fatalError
    · rw [if_pos hfatal, deliver_fatal hs hfatal]
      simp [Answer.items]
    · rw [if_neg hfatal, deliver_eq_self hs hfatal, hs]
      simp [Answer.items, ha]

theorem setSingleRowMode_items (ho : c.isOpen = true) (hs : c.stream = .result r :: rest) :
    c.setSingleRowMode = ({ c with stream := RowsMode.single.items r rest }, true) := by
  rw [setSingleRowMode, hs, RowsMode.items, RowsMode.sizes, List.map_replicate]
  rw [if_neg (by simp [ho])]
  dsimp only
  split
  · rfl
  · rw [← hs]

theorem setChunkedRowsMode_items (ho : c.isOpen = true) (hs : c.stream = .result r :: rest) {rows : Int}
    (hrows : 0 < rows) :
    c.setChunkedRowsMode rows = ({ c with stream := (RowsMode.chunk rows).items r rest }, true) := by
  have hrows : ¬ rows ≤ 0 := Int.not_le.2 hrows
  rw [setChunkedRowsMode, hs, RowsMode.items]
  rw [if_neg (by simp [ho, hrows])]
  dsimp only
  split
  · rfl
  · rw [← hs]

end PGconn

/-! ### The calls -/

/-- A call on a pipeline. -/
inductive PipelineCall (DB : Type) where
  | send (u : Statement DB)
  /-- The rows of the oldest query are to come in portions.  If the answer to it is an error, the server has sent some
  rows, with so many columns, before it. -/
  | inPortions (m : RowsMode) (columns : Nat) (before : List Nat)
  | sync
  | getResult
  | consumeSync

/-- What has been sent and not been read yet. -/
inductive Sent where
  | query
  | sync
  deriving DecidableEq

/-- What the server answers to a command that is sent now. -/
def State.answerTo (W : World) (cmd : Command DB) (s : State DB) : Answer :=
  s.conn.pg.answer W (s.conn.prepared.contains cmd.text) cmd

/-- Before an error, libpq delivers what the server had sent by then. -/
def State.deliver (before : List PGresult) (s : State DB) : State DB :=
  { s with conn := { s.conn with pg := s.conn.pg.deliver before } }

/-- A program at work on a pipeline: the state, the answers to all queries that it has sent, what is outstanding, the
partial results that it has got for the oldest query, what it got from all calls of `get_result` that were completed,
and the exceptions of all other calls. -/
structure Pipelining (DB : Type) where
  state : State DB
  answers : List Answer
  outstanding : List Sent
  got : List PGresult
  completed : List (List PGresult × Except Exn PGresult)
  failures : List Exn

namespace Pipelining

/-- The program begins. -/
def start (s : State DB) : Pipelining DB := ⟨s, [], [], [], [], []⟩

variable (W : World) (p : Addr)

/-- One call on the pipeline `p`.  A call of `get_result` is completed unless it returns a partial result. -/
def step (x : Pipelining DB) : PipelineCall DB → Option (Pipelining DB)
  | .send u =>
    match TaoPQ.send W p (.user u) x.state with
    | .ret _ s =>
      some { x with
        state := s, answers := x.answers ++ [x.state.answerTo W (.user u)], outstanding := x.outstanding ++ [.query] }
    | .throw e s => some { x with state := s, failures := x.failures ++ [e] }
    | .undefined => none
  | .inPortions m columns before =>
    match m.set p x.state with
    | .ret _ s =>
      some { x with
        state := s.deliver (before.map (m.portion columns))
        answers := x.answers.modify x.completed.length fun a => a.inPortions m columns before }
    | .throw e s => some { x with state := s, failures := x.failures ++ [e] }
    | .undefined => none
  | .sync =>
    match TaoPQ.pipelineSync p x.state with
    | .ret _ s => some { x with state := s, outstanding := x.outstanding ++ [.sync] }
    | .throw e s => some { x with state := s, failures := x.failures ++ [e] }
    | .undefined => none
  | .getResult =>
    match TaoPQ.getResult W p x.state with
    | .ret r s =>
      if r.isPartial then some { x with state := s, got := x.got ++ [r] }
      else
        some { x with
          state := s, outstanding := x.outstanding.tail, got := [], completed := x.completed ++ [(x.got, .ok r)] }
    | .throw e s =>
      some { x with
        state := s, outstanding := x.outstanding.tail, got := [], completed := x.completed ++ [(x.got, .error e)] }
    | .undefined => none
  | .consumeSync =>
    match TaoPQ.consumeSync W p x.state with
    | .ret _ s => some { x with state := s, outstanding := x.outstanding.tail }
    | .throw e s => some { x with state := s, failures := x.failures ++ [e] }
    | .undefined => none

/-- The calls that the program makes: it reads what is oldest, and asks for portions before it reads. -/
def Orderly (x : Pipelining DB) : PipelineCall DB → Prop
  | .send _ => True
  | .inPortions m _ _ => x.outstanding.head? = some .query ∧
    x.answers[x.completed.length]?.map Answer.partials = some [] ∧ m.Positive
  | .sync => True
  | .getResult => x.outstanding.head? = some .query
  | .consumeSync => x.outstanding.head? = some .sync

instance (x : Pipelining DB) : (c : PipelineCall DB) → Decidable (x.Orderly c)
  | .send _ => inferInstanceAs (Decidable True)
  | .inPortions m _ _ => inferInstanceAs (Decidable (x.outstanding.head? = some .query ∧
    x.answers[x.completed.length]?.map Answer.partials = some [] ∧ m.Positive))
  | .sync => inferInstanceAs (Decidable True)
  | .getResult => inferInstanceAs (Decidable (x.outstanding.head? = some .query))
  | .consumeSync => inferInstanceAs (Decidable (x.outstanding.head? = some .sync))

/-- What libpq has still to deliver for what is outstanding. -/
def items : List Sent → List Answer → List (Item DB)
  | .query :: sent, a :: answers => a.items ++ items sent answers
  | .sync :: sent, answers => .result (.plain .pipelineSync .other) :: items sent answers
  | _, _ => []

end Pipelining

/-! ### One answer is read -/

namespace Connection

variable {W : World} {c : Connection DB} {rest : List (Item DB)}

/-- A partial result is all that is read. -/
theorem wp_fetchResult_part (ho : c.pg.isOpen = true) {r : PGresult} (hr : r.isPartial = true)
    (hs : c.pg.stream = .result r :: rest) :
    wp False (fetchResult W) (fun v c' => v = r ∧ c.ReadsTo rest c') (fun _ _ => ¬ W.Reliable) c := by
  simp only [fetchResult, wp_bind]
  refine wp_mono (wp_getResult_next ho hs) (fun v c₁ h₁ => ?_) (fun _ _ => id)
  obtain ⟨rfl, h₁⟩ := h₁
  rcases r.isPartial_iff.1 hr with hr | hr
  · simp only [hr, result, wp_pure]
    exact ⟨trivial, h₁⟩
  · simp only [hr, result, wp_pure]
    exact ⟨trivial, h₁⟩

/-- A final result is read with the null pointer behind it. -/
theorem wp_fetchResult_final (ho : c.pg.isOpen = true) (a : Answer)
    (hs : c.pg.stream = .result a.final :: .null :: rest) :
    wp False (fetchResult W) (fun v c' => a.outcome = .ok v ∧ v.isPartial = false ∧ c.ReadsTo rest c')
      (fun e c' => ¬ W.Reliable ∨ a.outcome = .error e ∧ c.ReadsTo rest c') c := by
  simp only [fetchResult, wp_bind]
  refine wp_mono (wp_getResult_next ho hs) (fun v c₁ h₁ => ?_) (fun _ _ => .inl)
  obtain ⟨rfl, h₁⟩ := h₁
  have hdrained : wp False (do consumeEmptyResult W; result a.final)
      (fun v c' => a.outcome = .ok v ∧ v.isPartial = false ∧ c.ReadsTo rest c')
      (fun e c' => ¬ W.Reliable ∨ a.outcome = .error e ∧ c.ReadsTo rest c') c₁ := by
    obtain ⟨n, calls, rfl⟩ := h₁
    rw [wp_bind]
    refine wp_mono (wp_consumeEmptyResult_next ho rfl) (fun _ c₂ h₂ => ?_) (fun _ _ => .inl)
    have hread : c.ReadsTo rest c₂ := .trans ⟨n, calls, rfl⟩ h₂
    rcases a.isFinal with hfinal | hfinal
    · rcases a.final.isFinal_iff.1 hfinal with hr | hr | hr | hr <;>
        simp [result, Answer.outcome, PGresult.isPartial, hr, hread]
    · simp [result, Answer.outcome, PGresult.isPartial, hfinal, hread]
  rcases a.isFinal with hfinal | hfinal
  · rcases a.final.isFinal_iff.1 hfinal with hr | hr | hr | hr <;> simpa only [hr] using hdrained
  · simpa only [hfinal] using hdrained

theorem wp_fetchPipelineSync_next (ho : c.pg.isOpen = true)
    (hs : c.pg.stream = .result (.plain .pipelineSync .other) :: rest) :
    wp False (fetchPipelineSync W) (fun _ c' => c.ReadsTo rest c') (fun _ _ => ¬ W.Reliable) c := by
  simp only [fetchPipelineSync, wp_bind]
  refine wp_mono (wp_getResult_next ho hs) (fun v c₁ h₁ => ?_) (fun _ _ => id)
  obtain ⟨rfl, h₁⟩ := h₁
  exact h₁

end Connection

/-! ### One call -/

/-- The pipeline is the current transaction, and its connection is open and in pipeline mode. -/
structure State.Pipelines (s : State DB) (p : Addr) : Prop where
  object : ∃ q, s.object p = some ⟨.pipeline q, true⟩
  current : s.current = some p
  isOpen : s.conn.pg.isOpen = true
  pipeline : s.conn.pg.pipeline = true

/-- The state is as before, apart from what is to be read. -/
def State.ReadsTo (s : State DB) (items : List (Item DB)) (s' : State DB) : Prop :=
  ∃ c, s' = { s with conn := c } ∧ s.conn.ReadsTo items c

section

variable {W : World} {s s' : State DB} {p : Addr} {rest : List (Item DB)}

theorem State.Pipelines.of_reads (h : s.Pipelines p) (hs : s.ReadsTo rest s') :
    s'.Pipelines p ∧ s'.conn.pg.stream = rest := by
  obtain ⟨c, rfl, n, calls, rfl⟩ := hs
  exact ⟨⟨h.object, h.current, h.isOpen, h.pipeline⟩, rfl⟩

/-- The order check passes. -/
theorem State.Pipelines.wp_check (h : s.Pipelines p) {α : Type} {f : Unit → Prog DB α} {Q : α → State DB → Prop}
    {E : Exn → State DB → Prop} (hf : wp False (f ()) Q E s) :
    wp False (checkCurrentTransaction p >>= f) Q E s := by
  obtain ⟨q, hobject⟩ := h.object
  rw [wp_bind]
  exact (wp_check_current hobject rfl h.current).2 hf

/-- The state is as before, apart from the libpq connection, which is open and in pipeline mode. -/
theorem State.Pipelines.of_conn (h : s.Pipelines p) {c : Connection DB} (ho : c.pg.isOpen = true)
    (hp : c.pg.pipeline = true) : ({ s with conn := c } : State DB).Pipelines p := ⟨h.object, h.current, ho, hp⟩

theorem wp_getResult_part (h : s.Pipelines p) {r : PGresult} (hr : r.isPartial = true)
    (hs : s.conn.pg.stream = .result r :: rest) :
    wp False (getResult W p) (fun v s' => v = r ∧ s.ReadsTo rest s') (fun _ _ => ¬ W.Reliable) s := by
  refine h.wp_check ?_
  rw [wp_onConnection]
  exact wp_mono (Connection.wp_fetchResult_part h.isOpen hr hs) (fun v c hv => ⟨hv.1, c, rfl, hv.2⟩) (fun _ _ => id)

theorem wp_getResult_final (h : s.Pipelines p) (a : Answer) (hs : s.conn.pg.stream = .result a.final :: .null :: rest) :
    wp False (getResult W p) (fun v s' => a.outcome = .ok v ∧ v.isPartial = false ∧ s.ReadsTo rest s')
      (fun e s' => ¬ W.Reliable ∨ a.outcome = .error e ∧ s.ReadsTo rest s') s := by
  refine h.wp_check ?_
  rw [wp_onConnection]
  refine wp_mono (Connection.wp_fetchResult_final h.isOpen a hs) (fun v c hv => ⟨hv.1, hv.2.1, c, rfl, hv.2.2⟩) ?_
  rintro e c (hw | ⟨he, hc⟩)
  · exact .inl hw
  · exact .inr ⟨he, c, rfl, hc⟩

theorem wp_consumeSync (h : s.Pipelines p)
    (hs : s.conn.pg.stream = .result (.plain .pipelineSync .other) :: rest) :
    wp False (consumeSync W p) (fun _ s' => s.ReadsTo rest s') (fun _ _ => ¬ W.Reliable) s := by
  obtain ⟨q, hobject⟩ := h.object
  have hconsume : wp False (consumePipelineSync W p) (fun _ s' => s.ReadsTo rest s') (fun _ _ => ¬ W.Reliable) s := by
    refine h.wp_check ?_
    rw [wp_onConnection]
    exact wp_mono (Connection.wp_fetchPipelineSync_next h.isOpen hs) (fun _ c hc => ⟨c, rfl, hc⟩) (fun _ _ => id)
  simpa [consumeSync, derefConnection, hobject, h.current] using hconsume

/-- A sync is sent. -/
theorem pipelineSync_eq (h : s.Pipelines p) (hc : s.conn.pg.inCopy = false) :
    ∃ calls, pipelineSync p s = .ret ()
      { s with
        conn := ⟨{ s.conn.pg with
          stream := s.conn.pg.stream ++ [.result (.plain .pipelineSync .other)], aborted := false },
          s.conn.prepared, calls⟩ } := by
  obtain ⟨q, hobject⟩ := h.object
  have hok : s.conn.pg.pipelineSync =
      ({ s.conn.pg with stream := s.conn.pg.stream ++ [.result (.plain .pipelineSync .other)], aborted := false },
        true) := by
    simp [PGconn.pipelineSync, h.isOpen, h.pipeline, hc]
  have hsync : wp False (onConnection Connection.pipelineSync)
      (fun _ s' => ∃ calls, s' = { s with
        conn := ⟨{ s.conn.pg with
          stream := s.conn.pg.stream ++ [.result (.plain .pipelineSync .other)], aborted := false },
          s.conn.prepared, calls⟩ })
      (fun _ _ => False) s := by
    rw [wp_onConnection]
    refine Connection.wp_libpqOr_true (congrArg Prod.snd hok) ⟨LibpqCall.pipelineSync :: s.conn.calls, ?_⟩
    rw [hok]
  have hcall : wp False (pipelineSync p) (fun _ s' => ∃ calls, s' = { s with
        conn := ⟨{ s.conn.pg with
          stream := s.conn.pg.stream ++ [.result (.plain .pipelineSync .other)], aborted := false },
          s.conn.prepared, calls⟩ })
      (fun _ _ => False) s := by
    simpa [pipelineSync, derefConnection, hobject] using hsync
  obtain ⟨_, s', hs', calls, rfl⟩ := exists_ret hcall
  exact ⟨calls, hs'⟩

/-- A command is sent, by its text or, if it was prepared, by its name. -/
theorem send_eq (h : s.Pipelines p) (hc : s.conn.pg.inCopy = false) (cmd : Command DB) :
    ∃ calls, send W p cmd s = .ret ()
      { s with
        conn := ⟨(s.conn.pg.send W (s.conn.prepared.contains cmd.text) cmd).1, s.conn.prepared, calls⟩ } := by
  obtain ⟨σ, n, aborted, hsent⟩ := PGconn.send_answered (W := W) h.isOpen h.pipeline hc
    (s.conn.prepared.contains cmd.text) cmd
  have hsend : wp False (send W p cmd)
      (fun _ s' => ∃ calls, s' = { s with
        conn := ⟨(s.conn.pg.send W (s.conn.prepared.contains cmd.text) cmd).1, s.conn.prepared, calls⟩ })
      (fun _ _ => False) s := by
    refine h.wp_check ?_
    rw [wp_onConnection]
    simp only [Connection.sendParams, wp_bind, wp_get]
    exact Connection.wp_libpqOr_true (congrArg Prod.snd hsent) ⟨_, rfl⟩
  obtain ⟨_, s', hs', calls, rfl⟩ := exists_ret hsend
  exact ⟨calls, hs'⟩

/-- The answer to a command comes behind all that is unread. -/
theorem send_answers (h : s.Pipelines p) (hc : s.conn.pg.inCopy = false) (cmd : Command DB) :
    ∃ s', send W p cmd s = .ret () s' ∧ s'.Pipelines p ∧
      s'.conn.pg.stream = s.conn.pg.stream ++ (s.answerTo W cmd).items := by
  obtain ⟨calls, hsend⟩ := send_eq (W := W) h hc cmd
  obtain ⟨σ, n, aborted, hsent⟩ := PGconn.send_answered (W := W) h.isOpen h.pipeline hc
    (s.conn.prepared.contains cmd.text) cmd
  rw [hsent] at hsend
  exact ⟨_, hsend, h.of_conn h.isOpen h.pipeline, rfl⟩

/-- The rows of the query that was just sent come in portions. -/
theorem RowsMode.wp_set {m : RowsMode} {o : Addr} {x : Object} (hx : s.object o = some x) (hc : x.connected = true)
    (hcurrent : s.current = some o) (ho : s.conn.pg.isOpen = true) (hm : m.Positive) {r : PGresult}
    (hs : s.conn.pg.stream = .result r :: rest) :
    wp False (m.set o) (fun _ s' => s.ReadsTo (m.items r rest) s') (fun _ _ => False) s := by
  cases m with
  | single =>
    have hset := PGconn.setSingleRowMode_items ho hs
    rw [set, setSingleRowMode, wp_bind, wp_check_current hx hc hcurrent, wp_onConnection]
    refine Connection.wp_libpqOr_true (congrArg Prod.snd hset) ?_
    rw [hset]
    exact ⟨_, rfl, s.conn.pg.clock, _, rfl⟩
  | chunk rows =>
    have hset := PGconn.setChunkedRowsMode_items ho hs hm
    rw [set, setChunkMode, wp_bind, wp_check_current hx hc hcurrent, wp_onConnection]
    refine Connection.wp_libpqOr_true (congrArg Prod.snd hset) ?_
    rw [hset]
    exact ⟨_, rfl, s.conn.pg.clock, _, rfl⟩

/-- What is to be read of the oldest query comes in portions. -/
theorem State.Pipelines.inPortions (h : s.Pipelines p) {m : RowsMode} (hm : m.Positive) {a : Answer}
    (ha : a.partials = []) (columns : Nat) (before : List Nat)
    (hs : s.conn.pg.stream = .result a.final :: .null :: rest) :
    ∃ s', m.set p s = .ret () s' ∧ (s'.deliver (before.map (m.portion columns))).Pipelines p ∧
      (s'.deliver (before.map (m.portion columns))).conn.pg.stream =
        (a.inPortions m columns before).items ++ rest := by
  obtain ⟨q, hobject⟩ := h.object
  obtain ⟨_, s', hs', hreads⟩ := exists_ret (RowsMode.wp_set hobject rfl h.current h.isOpen hm hs)
  obtain ⟨h', hstream⟩ := h.of_reads hreads
  have hopen := (PGconn.deliver_isOpen s'.conn.pg (before.map (m.portion columns))).trans h'.isOpen
  have hpipeline := (PGconn.deliver_pipeline s'.conn.pg (before.map (m.portion columns))).trans h'.pipeline
  exact ⟨s', hs', h'.of_conn hopen hpipeline, PGconn.deliver_items ha columns before hstream⟩

end

/-! ### Any number of calls -/

namespace Answer

/-- What the program gets for a query in the end. -/
def completed (a : Answer) : List PGresult × Except Exn PGresult := (a.partials, a.outcome)

end Answer

namespace Pipelining

variable {W : World} {p : Addr} {x x' : Pipelining DB}

theorem items_append (sent sent' : List Sent) (answers answers' : List Answer)
    (h : sent.count .query = answers.length) :
    (items (sent ++ sent') (answers ++ answers') : List (Item DB)) = items sent answers ++ items sent' answers' := by
  induction sent generalizing answers with
  | nil =>
    obtain rfl : answers = [] := List.length_eq_zero_iff.1 h.symm
    rfl
  | cons i sent ih =>
    cases i with
    | sync => simp [items, ih answers (by simpa using h)]
    | query =>
      cases answers with
      | nil => simp at h
      | cons a answers => simp [items, ih answers (by simpa using h)]

theorem items_noCopy (sent : List Sent) (answers : List Answer) {i : Item DB} (hi : i ∈ items sent answers) :
    i = .null ∨ ∃ r, i = .result r := by
  induction sent generalizing answers with
  | nil => simp [items] at hi
  | cons j sent ih =>
    cases j with
    | sync =>
      rcases List.mem_cons.1 hi with rfl | hi
      · exact .inr ⟨_, rfl⟩
      · exact ih answers hi
    | query =>
      cases answers with
      | nil => simp [items] at hi
      | cons a answers =>
        rcases List.mem_append.1 hi with hi | hi
        · simp only [Answer.items, List.mem_append, List.mem_map, List.mem_cons, List.not_mem_nil, or_false] at hi
          rcases hi with ⟨r, -, rfl⟩ | rfl | rfl
          · exact .inr ⟨r, rfl⟩
          · exact .inr ⟨_, rfl⟩
          · exact .inl rfl
        · exact ih answers hi

/-- What has been got and what is unread together are the answers to what is outstanding, and all that went before was
returned or thrown as it was answered. -/
structure Aligned (p : Addr) (x : Pipelining DB) : Prop where
  pipelines : x.state.Pipelines p
  failures : x.failures = []
  completed : x.completed = (x.answers.take x.completed.length).map Answer.completed
  queries : x.completed.length + x.outstanding.count .query = x.answers.length
  got : x.got = [] ∨ ∃ sent a answers more, x.outstanding = .query :: sent ∧
    x.answers.drop x.completed.length = a :: answers ∧ a.partials = x.got ++ more
  stream : x.got.map .result ++ x.state.conn.pg.stream = items x.outstanding (x.answers.drop x.completed.length)

theorem Aligned.start {s : State DB} (h : s.Pipelines p) (hs : s.conn.pg.stream = []) : Aligned p (start s) :=
  ⟨h, rfl, rfl, rfl, .inl rfl, by simp [Pipelining.start, hs, items]⟩

theorem Aligned.inCopy (h : Aligned p x) : x.state.conn.pg.inCopy = false := by
  cases hs : x.state.conn.pg.stream with
  | nil => simp [PGconn.inCopy, hs]
  | cons i rest =>
    have hi : i ∈ items x.outstanding (x.answers.drop x.completed.length) := by
      rw [← h.stream, hs]
      simp
    rcases items_noCopy _ _ hi with rfl | ⟨r, rfl⟩ <;> simp [PGconn.inCopy, hs]

theorem Aligned.unanswered (h : Aligned p x) :
    x.outstanding.count .query = (x.answers.drop x.completed.length).length := by
  rw [List.length_drop]
  have := h.queries
  omega

/-- The oldest outstanding item is a query: its answer is next, without the partial results that were got. -/
theorem Aligned.query (h : Aligned p x) (hq : x.outstanding.head? = some .query) :
    ∃ sent a answers more, x.outstanding = .query :: sent ∧ x.answers.drop x.completed.length = a :: answers ∧
      a.partials = x.got ++ more ∧
      x.state.conn.pg.stream = more.map .result ++ .result a.final :: .null :: items sent answers := by
  obtain ⟨sent, hsent⟩ := List.head?_eq_some_iff.1 hq
  have hcount := h.unanswered
  rw [hsent, List.count_cons_self] at hcount
  obtain ⟨a, answers, hanswers⟩ := List.exists_cons_of_length_eq_add_one hcount.symm
  obtain ⟨more, hmore⟩ : ∃ more, a.partials = x.got ++ more := by
    rcases h.got with hgot | ⟨_, _, _, more, _, hdrop, hmore⟩
    · exact ⟨a.partials, by simp [hgot]⟩
    · rw [hanswers] at hdrop
      cases hdrop
      exact ⟨more, hmore⟩
  refine ⟨sent, a, answers, more, hsent, hanswers, hmore, ?_⟩
  have hstream := h.stream
  rw [hsent, hanswers] at hstream
  simpa [items, Answer.items, hmore] using hstream

/-- The oldest outstanding item is a sync: its result is next. -/
theorem Aligned.sync (h : Aligned p x) (hq : x.outstanding.head? = some .sync) :
    ∃ sent, x.outstanding = .sync :: sent ∧ x.got = [] ∧ x.state.conn.pg.stream =
      .result (.plain .pipelineSync .other) :: items sent (x.answers.drop x.completed.length) := by
  obtain ⟨sent, hsent⟩ := List.head?_eq_some_iff.1 hq
  have hgot : x.got = [] := by
    rcases h.got with hgot | ⟨_, _, _, _, hsent', _⟩
    · exact hgot
    · rw [hsent] at hsent'
      cases hsent'
  have hstream := h.stream
  rw [hsent, hgot] at hstream
  exact ⟨sent, hsent, hgot, hstream⟩

/-- The answer that was read becomes a completed call. -/
theorem Aligned.complete (h : Aligned p x) {sent : List Sent} {a : Answer} {answers : List Answer}
    (hsent : x.outstanding = .query :: sent) (hanswers : x.answers.drop x.completed.length = a :: answers)
    (hgot : a.partials = x.got) {s : State DB} (hs : s.Pipelines p) (hstream : s.conn.pg.stream = items sent answers) :
    Aligned p { x with
      state := s, outstanding := x.outstanding.tail, got := [],
      completed := x.completed ++ [(x.got, a.outcome)] } := by
  have hnext : x.answers[x.completed.length]? = some a := by
    rw [← List.head?_drop, hanswers]
    rfl
  have hrest : x.answers.drop (x.completed.length + 1) = answers := by
    rw [← List.drop_drop, hanswers]
    rfl
  refine ⟨hs, h.failures, ?_, ?_, .inl rfl, ?_⟩
  · show x.completed ++ [(x.got, a.outcome)] = _
    rw [List.length_append, List.length_singleton, List.take_add_one, hnext, List.map_append, ← h.completed, ← hgot]
    rfl
  · have := h.queries
    simp only [hsent, List.count_cons_self] at this
    simp only [hsent, List.length_append, List.length_singleton, List.tail_cons]
    omega
  · simp [hsent, hrest, hstream]

variable (hW : W.Reliable)
include hW

theorem Aligned.step_getResult (h : Aligned p x) (hq : x.outstanding.head? = some .query) :
    ∃ x', step W p x .getResult = some x' ∧ Aligned p x' := by
  obtain ⟨sent, a, answers, more, hsent, hanswers, hpartials, hstream⟩ := h.query hq
  cases more with
  | cons r more =>
    -- a partial result is next
    have hr : r.isPartial = true := a.isPartial r (by simp [hpartials])
    obtain ⟨v, s', hv, rfl, hs'⟩ :=
      exists_ret (wp_mono (wp_getResult_part h.pipelines hr hstream) (fun _ _ => id) (fun _ _ he => he hW))
    obtain ⟨hpipelines, hstream'⟩ := h.pipelines.of_reads hs'
    refine ⟨{ x with state := s', got := x.got ++ [v] }, by simp [step, hv, hr], ?_⟩
    refine ⟨hpipelines, h.failures, h.completed, h.queries, .inr ⟨sent, a, answers, more, hsent, hanswers, ?_⟩, ?_⟩
    · simp [hpartials]
    · simp [hstream', hsent, hanswers, items, Answer.items, hpartials]
  | nil =>
    -- the final result is next
    have hgot : a.partials = x.got := by simpa using hpartials
    rcases ret_or_throw (wp_getResult_final (W := W) h.pipelines a hstream) with
      ⟨v, s', hv, hv', hwhole, hs'⟩ | ⟨e, s', hv, hw | ⟨he, hs'⟩⟩
    · obtain ⟨hpipelines, hstream'⟩ := h.pipelines.of_reads hs'
      have hcomplete := h.complete hsent hanswers hgot hpipelines hstream'
      rw [hv'] at hcomplete
      exact ⟨_, by simp [step, hv, hwhole], hcomplete⟩
    · exact (hw hW).elim
    · obtain ⟨hpipelines, hstream'⟩ := h.pipelines.of_reads hs'
      have hcomplete := h.complete hsent hanswers hgot hpipelines hstream'
      rw [he] at hcomplete
      exact ⟨_, by simp [step, hv], hcomplete⟩

theorem Aligned.step_consumeSync (h : Aligned p x) (hq : x.outstanding.head? = some .sync) :
    ∃ x', step W p x .consumeSync = some x' ∧ Aligned p x' := by
  obtain ⟨sent, hsent, hgot, hstream⟩ := h.sync hq
  obtain ⟨_, s', hv, hs'⟩ :=
    exists_ret (wp_mono (wp_consumeSync h.pipelines hstream) (fun _ _ => id) (fun _ _ he => he hW))
  obtain ⟨hpipelines, hstream'⟩ := h.pipelines.of_reads hs'
  refine ⟨{ x with state := s', outstanding := x.outstanding.tail }, by simp [step, hv], ?_⟩
  refine ⟨hpipelines, h.failures, h.completed, ?_, .inl hgot, ?_⟩
  · have := h.queries
    simpa [hsent] using this
  · simp [hsent, hgot, hstream']

omit hW in
/-- A query was sent, and its answer comes behind all that is unread. -/
theorem Aligned.sent (h : Aligned p x) (a : Answer) {s : State DB} (hs : s.Pipelines p)
    (hstream : s.conn.pg.stream = x.state.conn.pg.stream ++ a.items) :
    Aligned p { x with state := s, answers := x.answers ++ [a], outstanding := x.outstanding ++ [.query] } := by
  have hqueries := h.queries
  have hle : x.completed.length ≤ x.answers.length := by omega
  refine ⟨hs, h.failures, ?_, ?_, ?_, ?_⟩
  · rw [List.take_append_of_le_length hle]
    exact h.completed
  · simp only [List.count_append, List.count_singleton_self, List.length_append, List.length_singleton]
    omega
  · rcases h.got with hgot | ⟨sent, b, answers, more, hsent, hanswers, hmore⟩
    · exact .inl hgot
    · refine .inr ⟨sent ++ [.query], b, answers ++ [a], more, by simp [hsent], ?_, hmore⟩
      rw [List.drop_append_of_le_length hle, hanswers]
      rfl
  · rw [List.drop_append_of_le_length hle, items_append _ _ _ _ h.unanswered, ← h.stream, hstream]
    simp [items]

omit hW in
theorem Aligned.step_send (h : Aligned p x) (u : Statement DB) :
    ∃ x', step W p x (.send u) = some x' ∧ Aligned p x' := by
  obtain ⟨s', hs', hpipelines, hstream⟩ := send_answers (W := W) h.pipelines h.inCopy (.user u)
  exact ⟨_, by simp only [step, hs'], h.sent _ hpipelines hstream⟩

omit hW in
theorem Aligned.step_inPortions (h : Aligned p x) {m : RowsMode} (hm : m.Positive) (columns : Nat) (before : List Nat)
    (hq : x.outstanding.head? = some .query)
    (hwhole : x.answers[x.completed.length]?.map Answer.partials = some []) :
    ∃ x', step W p x (.inPortions m columns before) = some x' ∧ Aligned p x' := by
  obtain ⟨sent, a, answers, more, hsent, hanswers, hpartials, hstream⟩ := h.query hq
  have ha : a.partials = [] := by
    rw [← List.head?_drop, hanswers] at hwhole
    exact Option.some.inj hwhole
  obtain ⟨hgot, rfl⟩ : x.got = [] ∧ more = [] := List.append_eq_nil_iff.1 (hpartials.symm.trans ha)
  obtain ⟨s', hs', hpipelines, hstream'⟩ := h.pipelines.inPortions hm ha columns before hstream
  have hstep : step W p x (.inPortions m columns before) = some { x with
      state := s'.deliver (before.map (m.portion columns))
      answers := x.answers.modify x.completed.length fun a => a.inPortions m columns before } := by
    simp only [step, hs']
  refine ⟨_, hstep, hpipelines, h.failures, ?_, ?_, .inl hgot, ?_⟩
  · -- the answers to the calls that were completed stay as they are
    dsimp only
    rw [List.take_modify, List.modify_eq_self (List.length_take_le _ _)]
    exact h.completed
  · rw [List.length_modify]
    exact h.queries
  · dsimp only
    rw [List.drop_modify_of_ge _ _ _ _ (le_refl _), Nat.sub_self, hanswers, List.modify_zero_cons, hgot, hsent, hstream']
    rfl

omit hW in
theorem Aligned.step_sync (h : Aligned p x) : ∃ x', step W p x .sync = some x' ∧ Aligned p x' := by
  obtain ⟨calls, hv⟩ := pipelineSync_eq h.pipelines h.inCopy
  have hstep {s' : State DB} (hs : pipelineSync p x.state = .ret () s') : step W p x .sync =
      some { x with state := s', outstanding := x.outstanding ++ [.sync] } := by
    rw [step, hs]
  refine ⟨_, hstep hv, h.pipelines.of_conn h.pipelines.isOpen h.pipelines.pipeline, h.failures, h.completed, ?_, ?_, ?_⟩
  · have := h.queries
    simpa using this
  · rcases h.got with hgot | ⟨sent, b, answers, more, hsent, hanswers, hmore⟩
    · exact .inl hgot
    · exact .inr ⟨sent ++ [.sync], b, answers, more, by simp [hsent], hanswers, hmore⟩
  · have happend : (items (x.outstanding ++ [.sync]) (_ ++ []) : List (Item DB)) = _ :=
      items_append _ [.sync] _ [] h.unanswered
    rw [List.append_nil] at happend
    rw [happend, ← h.stream]
    simp [items]

/-- Every call that is made in order keeps results and queries aligned, and its behaviour is defined. -/
theorem Aligned.step (h : Aligned p x) (c : PipelineCall DB) (hc : x.Orderly c) :
    ∃ x', Pipelining.step W p x c = some x' ∧ Aligned p x' := by
  cases c with
  | send u => exact h.step_send u
  | inPortions m columns before =>
    obtain ⟨hq, hwhole, hm⟩ := hc
    exact h.step_inPortions hm columns before hq hwhole
  | sync => exact h.step_sync
  | getResult => exact h.step_getResult hW hc
  | consumeSync => exact h.step_consumeSync hW hc

end Pipelining

/-! ### The beginning of a pipeline -/

namespace PGconn

theorem enterPipelineMode_stream {c : PGconn DB} (h : c.pipeline = false) (hok : c.enterPipelineMode.2 = true) :
    c.enterPipelineMode.1.isOpen = true ∧ c.enterPipelineMode.1.pipeline = true ∧
      c.enterPipelineMode.1.stream = [] := by
  unfold enterPipelineMode at hok ⊢
  by_cases ho : c.isOpen = true
  · by_cases hs : c.stream = []
    · simp [ho, h, hs]
    · simp [ho, h, hs] at hok
  · simp [ho] at hok

end PGconn

section

variable {W : World} {s s' : State DB} {o d p : Addr}

/-- A new pipeline is the current transaction, and nothing is unread. -/
theorem wp_pipeline (h : s.conn.pg.pipeline = false) :
    wp True (pipeline o p)
      (fun _ s' => s'.Pipelines p ∧ s'.conn.pg.stream = [] ∧
        ∃ q, s'.object p = some ⟨.pipeline (some q), true⟩ ∧ s.current = some q)
      (fun _ _ => True) s := by
  simp only [pipeline, wp_bind, wp_checkCurrentTransaction, wp_get, implies_true, and_true]
  intro _ _ _
  cases hcurrent : s.current with
  | none => simp
  | some q =>
    simp only [wp_derefPointer_some, wp_onConnection, Connection.enterPipelineMode, Connection.libpqOr, wp_bind,
      wp_libpq, wp_ite, wp_pure, wp_throw, wp_putObject, wp_setCurrent, hold, wp_modify, implies_true, and_true]
    intro _ hok
    obtain ⟨hopen, hpipeline, hstream⟩ := PGconn.enterPipelineMode_stream h hok
    have hobject : AList.lookup p (s.objects.insert p ⟨.pipeline (some q), true⟩) = some ⟨.pipeline (some q), true⟩ :=
      AList.lookup_insert _
    exact ⟨⟨⟨some q, hobject⟩, rfl, hopen, hpipeline⟩, hstream, q, hobject, rfl⟩

theorem pipelines_of_pipeline (h : s.conn.pg.pipeline = false) (hs : pipeline o p s = .ret () s') :
    s'.Pipelines p ∧ s'.conn.pg.stream = [] := by
  obtain ⟨hpipelines, hstream, _⟩ := wp_ret (wp_pipeline h) hs
  exact ⟨hpipelines, hstream⟩

/-- The same for `connection::pipeline`: the direct transaction stays, as the previous of the pipeline. -/
theorem pipelines_of_connectionPipeline (h : s.conn.pg.pipeline = false)
    (hs : connectionPipeline W d p s = .ret () s') : s'.Pipelines p ∧ s'.conn.pg.stream = [] := by
  have hleft : wp True (connectionPipeline W d p) (fun _ s' => s'.Pipelines p ∧ s'.conn.pg.stream = [])
      (fun _ _ => True) s := by
    simp only [connectionPipeline, direct, newTransactionBase, wp_bind, wp_get, wp_ite, wp_throw, wp_putObject,
      wp_setCurrent, hold, wp_modify, implies_true, true_and, wp_andFinally]
    intro _
    refine wp_mono (wp_pipeline h) (fun _ s₁ h₁ => ?_) (fun _ _ _ => wp_trivial (fun _ _ => trivial) fun _ _ => trivial)
    obtain ⟨hpipelines, hstream, q, hobject, hq⟩ := h₁
    obtain rfl : q = d := (Option.some.inj hq).symm
    have hkept : ({ s₁ with held := s₁.held.erase q } : State DB).Owns q := .inr (.inl ⟨p, _, hobject, rfl⟩)
    simp only [dropHandle, wp_bind, wp_modify]
    exact wp_release_owns hkept ⟨⟨hpipelines.object, hpipelines.current, hpipelines.isOpen, hpipelines.pipeline⟩, hstream⟩
  exact wp_ret hleft hs

/-- `connection::pipeline` was called on a new connection. -/
def State.pipelineOnly (db : DB) : State DB :=
  { State.init db with
    conn := ⟨{ PGconn.init db with pipeline := true }, [], [.enterPipelineMode]⟩
    current := some 1
    objects := AList.insert 1 ⟨.pipeline (some 0), true⟩ (AList.insert 0 ⟨.autocommitTransaction, true⟩ ∅)
    held := [1] }

theorem State.pipelineOnly_pipelines (db : DB) : (State.pipelineOnly db).Pipelines 1 :=
  (pipelines_of_connectionPipeline (W := .calm) (s := State.init db) (d := 0) rfl rfl).1

end

/-! ### The theorem -/

namespace Answer

/-- No status of a result is unexpected. -/
theorem outcome_expected (a : Answer) (text : String) :
    a.outcome ≠ .error (.runtimeError ("unexpected result status: " ++ text)) := by
  intro h
  unfold outcome at h
  split at h
  · have hchars := congrArg (fun w : String => w.toList.take 12) (Exn.runtimeError.inj (Except.error.inj h))
    simp at hchars
  · simp at h
  · simp at h

end Answer

namespace Pipelining

variable {W : World} {p : Addr} {s : State DB} {x : Pipelining DB}

theorem Aligned.run (hW : W.Reliable) (h₀ : s.Pipelines p) (hs : s.conn.pg.stream = [])
    (h : Run (Pipelining.start s) (Pipelining.step W p) Orderly x) : Aligned p x := by
  refine h.invariant (.start h₀ hs) fun x c x' hx hc hstep => ?_
  obtain ⟨x'', hstep', hx''⟩ := hx.step hW c hc
  rw [hstep'] at hstep
  exact Option.some.inj hstep ▸ hx''

/-- As long as the answers arrive and no handler throws, the results of a pipeline stay matched to what was sent, in a
program that reads what is oldest: each completed `get_result` had the outcome of the query with the same number, no
other call fails, and what is unread are the answers to what is outstanding, without the partial results that were got
already. -/
theorem results_matched (hW : W.Reliable) (h₀ : s.Pipelines p) (hs : s.conn.pg.stream = [])
    (h : Run (Pipelining.start s) (Pipelining.step W p) Orderly x) :
    x.completed.length ≤ x.answers.length ∧
      (∀ i < x.completed.length, x.completed[i]? = x.answers[i]?.map Answer.completed) ∧
      x.failures = [] ∧
      (∀ call ∈ x.completed, ∀ text, call.2 ≠ .error (.runtimeError ("unexpected result status: " ++ text))) ∧
      x.got.map .result ++ x.state.conn.pg.stream = items x.outstanding (x.answers.drop x.completed.length) ∧
      ∀ c, x.Orderly c → ∃ x', Pipelining.step W p x c = some x' := by
  have haligned := Aligned.run hW h₀ hs h
  refine ⟨?_, fun i hi => ?_, haligned.failures, fun call hcall text => ?_, haligned.stream, fun c hc => ?_⟩
  · have := haligned.queries
    omega
  · have hi' := congrArg (fun calls => calls[i]?) haligned.completed
    simpa [List.getElem?_take, hi] using hi'
  · rw [haligned.completed] at hcall
    obtain ⟨a, -, rfl⟩ := List.mem_map.1 hcall
    exact a.outcome_expected text
  · obtain ⟨x', hstep, -⟩ := haligned.step hW c hc
    exact ⟨x', hstep⟩

/-- Two rows come one by one, the next query fails behind a chunk, the third is not executed, and after the sync all is
read. -/
theorem results_matched_sample : ∃ x : Pipelining Unit,
    Run (Pipelining.start (State.pipelineOnly ())) (Pipelining.step .calm 1) Orderly x ∧
      x.answers.map (fun a => (a.partials.length, a.final.status)) =
        [(2, .tuplesOk), (1, .fatalError), (0, .pipelineAborted)] ∧ x.outstanding = [] ∧
      x.completed.length = 3 ∧ ∀ i < 3, x.completed[i]? = x.answers[i]?.map Answer.completed := by
  let rows : Statement Unit := ⟨"SELECT n FROM t", .query some 1 2⟩
  let bad : Statement Unit := ⟨"SELECT 1 / n FROM t", .query (fun _ => none) 1 0⟩
  obtain ⟨x, hx, hanswers, houtstanding, hcompleted⟩ := Run.of_trace (Pipelining.start (State.pipelineOnly ()))
    (Pipelining.step .calm 1) Orderly
    [.send rows, .send bad, .inPortions .single 1 [], .getResult, .getResult, .send rows, .sync, .getResult,
      .inPortions (.chunk 2) 1 [2], .getResult, .getResult, .getResult, .consumeSync]
    (P := fun x => x.answers.map (fun a => (a.partials.length, a.final.status)) =
        [(2, .tuplesOk), (1, .fatalError), (0, .pipelineAborted)] ∧ x.outstanding = [] ∧ x.completed.length = 3)
    (by decide +kernel)
  have hmatched := (results_matched World.calm_reliable (State.pipelineOnly_pipelines ()) rfl hx).2.1
  rw [hcompleted] at hmatched
  exact ⟨x, hx, hanswers, houtstanding, hcompleted, hmatched⟩

/-- A handler throws when the first result has just been read.  This result is lost, and the next `get_result` finds the
null pointer behind it instead of the second result. -/
theorem handler_loses_result : ∃ (W : World) (s : State Unit) (x : Pipelining Unit),
    connectionPipeline W 0 1 (State.init ()) = .ret () s ∧ Run (Pipelining.start s) (Pipelining.step W 1) Orderly x ∧
      x.answers.map (fun a => a.final.status) = [.tuplesOk, .tuplesOk] ∧
      x.completed.map (fun call => call.2) =
        [.error .user, .error (.runtimeError "unable to obtain result")] ∧
      ∀ i < 2, x.completed[i]? ≠ x.answers[i]?.map Answer.completed := by
  let W : World := { World.calm with handlerThrows := fun n => n == 1 }
  let rows : Statement Unit := ⟨"SELECT n FROM t", .query some 1 2⟩
  obtain ⟨x, hx, hanswers, hcompleted, hlost⟩ := Run.of_trace (Pipelining.start (State.pipelineOnly ()))
    (Pipelining.step W 1) Orderly [.send rows, .send rows, .getResult, .getResult]
    (P := fun x => x.answers.map (fun a => a.final.status) = [.tuplesOk, .tuplesOk] ∧
      x.completed.map (fun call => call.2) =
        [.error .user, .error (.runtimeError "unable to obtain result")] ∧
      ∀ i < 2, x.completed[i]? ≠ x.answers[i]?.map Answer.completed) (by decide +kernel)
  exact ⟨W, State.pipelineOnly (), x, rfl, hx, hanswers, hcompleted, hlost⟩

end Pipelining

end TaoPQ
