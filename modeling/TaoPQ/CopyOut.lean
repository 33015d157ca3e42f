import TaoPQ.Destruction
import TaoPQ.Traffic

/-!
# Reading a COPY TO

What a table reader has before it once it was constructed: the rows of the COPY, the result of the command, and the
null pointer behind it.  `get_raw_data` takes away one row after the other.  At the end of the data it reads the
result, and releases the guard and the transaction below; the null pointer stays where it is.
-/

namespace TaoPQ

open Exec

variable {DB : Type} {W : World}

/-! ### Results that announce a COPY -/

/-- The result does not announce a COPY. -/
def PGresult.NoCopy (r : PGresult) : Prop := r.status ≠ .copyIn ∧ r.status ≠ .copyOut

namespace PGconn

variable {c : PGconn DB} {σ : Session DB}

/-- Among the results that `PQgetResult` takes away, none announces a COPY. -/
def Proper (c : PGconn DB) : Prop := ∀ r, Item.result r ∈ c.stream → r.NoCopy

/-- Besides what was there, only results that announce no COPY are to be read. -/
theorem Proper.of_more {c' : PGconn DB} (h : c.Proper)
    (hs : ∀ r, Item.result r ∈ c'.stream → Item.result r ∈ c.stream ∨ r.NoCopy) : c'.Proper :=
  fun r hr => (hs r hr).elim (h r) id

theorem Proper.of_fewer {c' : PGconn DB} (h : c.Proper) (hs : ∀ i ∈ c'.stream, i ∈ c.stream) : c'.Proper :=
  h.of_more fun _ hr => .inl (hs _ hr)

/-- An answer is appended. -/
theorem Proper.append {c' : PGconn DB} (h : c.Proper) {x : PGresult} (hx : x.NoCopy) {items : List (Item DB)}
    (hi : ∀ r, Item.result r ∈ items → r = x) (hs : c'.stream = c.stream ++ items) : c'.Proper := by
  refine h.of_more fun r hr => ?_
  rw [hs] at hr
  rcases List.mem_append.1 hr with hr | hr
  · exact .inl hr
  · exact .inr (hi r hr ▸ hx)

theorem noCopy_fatal : PGresult.fatal.NoCopy := ⟨by decide, by decide⟩

theorem noCopy_plain {status : ExecStatus} {tag : Tag} (hi : status ≠ .copyIn) (ho : status ≠ .copyOut) :
    (PGresult.plain status tag).NoCopy := ⟨hi, ho⟩

/-- What a statement of the user is answered with, if it is not a COPY. -/
theorem run_noCopy (effect : DB → Option DB) {ok : PGresult} (hok : ok.NoCopy) : (σ.run effect ok).2.NoCopy := by
  unfold Session.run
  repeat' split
  all_goals first
    | exact hok
    | exact noCopy_fatal

theorem control_noCopy (refused : Bool) (k : Control) : (σ.control refused k).2.NoCopy := by
  rcases Connection.control_status σ refused k with h | h <;> simp [PGresult.NoCopy, h]

theorem prepare_noCopy (name : String) (valid : Bool) : (σ.prepare name valid).2.NoCopy := by
  unfold Session.prepare
  repeat' split
  all_goals first
    | exact noCopy_fatal
    | exact noCopy_plain (by decide) (by decide)

theorem deallocate_noCopy (name : String) : (σ.deallocate name).2.NoCopy := by
  unfold Session.deallocate
  repeat' split
  all_goals first
    | exact noCopy_fatal
    | exact noCopy_plain (by decide) (by decide)

theorem runUser_noCopy (u : Body DB) (r : PGresult) (hr : Item.result r ∈ (c.runUser u).2) : r.NoCopy := by
  have fatal (h : r = .fatal) : r.NoCopy := h ▸ noCopy_fatal
  cases u with
  | empty =>
    obtain rfl : r = .plain .emptyQuery .other := by simpa [runUser] using hr
    exact noCopy_plain (by decide) (by decide)
  | command effect n =>
    obtain rfl : r = (c.session.run effect ⟨.commandOk, .other, 0, 0, n⟩).2 := by simpa [runUser] using hr
    exact run_noCopy _ ⟨by simp, by simp⟩
  | query effect columns rows =>
    obtain rfl : r = (c.session.run effect ⟨.tuplesOk, .other, columns, rows, some rows⟩).2 := by
      simpa [runUser] using hr
    exact run_noCopy _ ⟨by simp, by simp⟩
  | copyFrom load rows =>
    simp only [runUser] at hr
    split at hr
    · exact fatal (by simpa using hr)
    · simp at hr
  | copyTo columns rows completes =>
    simp only [runUser] at hr
    repeat' split at hr
    · exact fatal (by simpa using hr)
    · obtain rfl : r = ⟨.commandOk, .other, 0, 0, some rows.length⟩ := by simpa using hr
      exact ⟨by simp, by simp⟩
    · exact fatal (by simpa using hr)

theorem answer_noCopy (byName : Bool) (cmd : Command DB) (r : PGresult) (hr : Item.result r ∈ (c.run W byName cmd).2) :
    r.NoCopy := by
  cases cmd with
  | control k =>
    obtain rfl : r = (c.session.control (W.commitRefused c.clock) k).2 := by simpa [run] using hr
    exact control_noCopy _ _
  | deallocate name =>
    obtain rfl : r = (c.session.deallocate name).2 := by simpa [run] using hr
    exact deallocate_noCopy _
  | user u =>
    unfold run at hr
    dsimp only at hr
    split at hr
    · obtain rfl : r = .fatal := by simpa using hr
      exact noCopy_fatal
    · exact runUser_noCopy _ r hr

theorem pipelineReply_noCopy {items : List (Item DB)} (h : ∀ r, Item.result r ∈ items → r.NoCopy) :
    (pipelineReply items).NoCopy := by
  unfold pipelineReply
  split
  · exact h _ List.mem_cons_self
  · exact noCopy_fatal

/-- A command is sent: its answer becomes the stream, or is appended to it. -/
theorem Proper.send (h : c.Proper) (byName : Bool) (cmd : Command DB) : (c.send W byName cmd).1.Proper := by
  have hrun := answer_noCopy (W := W) (c := c) byName cmd
  unfold PGconn.send
  generalize c.run W byName cmd = answer at hrun ⊢
  obtain ⟨c', items⟩ := answer
  dsimp only at hrun ⊢
  repeat' split
  · exact h
  · exact h
  · exact h.append (x := .plain .pipelineAborted .other) (noCopy_plain (by decide) (by decide)) (by simp) rfl
  · exact h.append (pipelineReply_noCopy hrun) (by simp) rfl
  · exact h
  · exact hrun

theorem Proper.sendPrepare (h : c.Proper) (name : String) (valid : Bool) : (c.sendPrepare name valid).1.Proper := by
  have hprepare := prepare_noCopy (σ := c.session) name valid
  unfold PGconn.sendPrepare
  generalize c.session.prepare name valid = answer at hprepare ⊢
  obtain ⟨session, x⟩ := answer
  dsimp only at hprepare ⊢
  repeat' split
  · exact h
  · exact h
  · exact h.append (x := .plain .pipelineAborted .other) (noCopy_plain (by decide) (by decide)) (by simp) rfl
  · exact h.append hprepare (by simp) rfl
  · exact h
  · intro r hr
    obtain rfl : r = x := by simpa using hr
    exact hprepare

theorem Proper.putCopyEnd (h : c.Proper) (m : Option String) : (c.putCopyEnd m).1.Proper := by
  unfold PGconn.putCopyEnd
  repeat' split
  · exact h
  · rename_i load rows received rest hs _ _
    refine h.of_more fun r hr => ?_
    simp only [List.mem_cons, Item.result.injEq, reduceCtorEq, false_or] at hr
    rcases hr with rfl | hr
    · exact .inr noCopy_fatal
    · exact .inl (hs ▸ List.mem_cons_of_mem _ hr)
  · rename_i load rows received rest hs _ _ session x hx
    have hnew : (c.session.run (load received) ⟨.commandOk, .other, 0, 0, some (rows received)⟩).2.NoCopy :=
      run_noCopy _ ⟨by simp, by simp⟩
    rw [hx] at hnew
    refine h.of_more fun r hr => ?_
    simp only [List.mem_cons, Item.result.injEq, reduceCtorEq, false_or] at hr
    rcases hr with rfl | hr
    · exact .inr hnew
    · exact .inl (hs ▸ List.mem_cons_of_mem _ hr)
  · exact h

theorem Proper.setSingleRowMode (h : c.Proper) : c.setSingleRowMode.1.Proper := by
  unfold PGconn.setSingleRowMode
  repeat' split
  all_goals first
    | exact h
    | skip
  rename_i x rest hs hx
  refine h.of_more fun r hr => ?_
  simp only [List.mem_append, List.mem_replicate, List.mem_cons, Item.result.injEq] at hr
  rcases hr with ⟨_, rfl⟩ | rfl | hr
  · exact .inr ⟨by simp, by simp⟩
  · exact .inr ⟨by simp [hx], by simp [hx]⟩
  · exact .inl (hs ▸ List.mem_cons_of_mem _ hr)

theorem Proper.setChunkedRowsMode (h : c.Proper) (size : Int) : (c.setChunkedRowsMode size).1.Proper := by
  unfold PGconn.setChunkedRowsMode
  repeat' split
  all_goals first
    | exact h
    | skip
  all_goals
    rename_i x rest hs hx _
    refine h.of_more fun r hr => ?_
    dsimp only at hr
    rw [List.mem_append, List.mem_cons, List.mem_map] at hr
    rcases hr with ⟨n, _, hn⟩ | hr | hr
    · obtain rfl := Item.result.inj hn
      exact .inr ⟨by simp, by simp⟩
    · obtain rfl := Item.result.inj hr
      exact .inr ⟨by simp [hx], by simp [hx]⟩
    · exact .inl (hs ▸ List.mem_cons_of_mem _ hr)

theorem Proper.cancel (h : c.Proper) : (c.cancel W).1.Proper := by
  unfold PGconn.cancel
  repeat' split
  all_goals first
    | exact h
    | skip
  rename_i columns rows x rest hs _
  refine h.of_more fun r hr => ?_
  simp only [tick, List.mem_cons, Item.result.injEq, reduceCtorEq, false_or] at hr
  rcases hr with rfl | hr
  · exact .inr noCopy_fatal
  · exact .inl (hs ▸ List.mem_cons_of_mem _ (List.mem_cons_of_mem _ hr))

theorem Proper.getResult (h : c.Proper) : c.getResult.1.Proper := by
  unfold PGconn.getResult
  repeat' split
  all_goals first
    | exact h
    | skip
  all_goals
    rename_i hs
    exact h.of_fewer fun i hi => hs ▸ List.mem_cons_of_mem _ hi

theorem Proper.getCopyData (h : c.Proper) : c.getCopyData.1.Proper := by
  unfold PGconn.getCopyData
  repeat' split
  · exact h
  · rename_i columns row rows rest hs
    refine h.of_more fun r hr => .inl ?_
    simp only [List.mem_cons, reduceCtorEq, false_or] at hr
    exact hs ▸ List.mem_cons_of_mem _ hr
  · rename_i hs
    exact h.of_fewer fun i hi => hs ▸ List.mem_cons_of_mem _ hi
  · exact h

theorem Proper.putCopyData (h : c.Proper) (data : Chunk) : (c.putCopyData data).1.Proper := by
  unfold PGconn.putCopyData
  repeat' split
  · exact h
  · rename_i load rows received rest hs
    refine h.of_more fun r hr => .inl ?_
    simp only [List.mem_cons, reduceCtorEq, false_or] at hr
    exact hs ▸ List.mem_cons_of_mem _ hr
  · exact h

theorem Proper.enterPipelineMode (h : c.Proper) : c.enterPipelineMode.1.Proper := by
  unfold PGconn.enterPipelineMode
  repeat' split
  all_goals exact h

theorem Proper.exitPipelineMode (h : c.Proper) : c.exitPipelineMode.1.Proper := by
  unfold PGconn.exitPipelineMode
  repeat' split
  all_goals exact h

theorem Proper.pipelineSync (h : c.Proper) : c.pipelineSync.1.Proper := by
  unfold PGconn.pipelineSync
  split
  · exact h
  · exact h.append (x := .plain .pipelineSync .other) (noCopy_plain (by decide) (by decide)) (by simp) rfl

/-- In every state that a program reaches, only a COPY in progress announces one. -/
theorem proper_preserved : Preserved W (Proper : PGconn DB → Prop) where
  tick _ h := h
  close _ h := h
  send _ byName cmd h := h.send byName cmd
  sendPrepare _ name valid h := h.sendPrepare name valid
  getResult _ h := h.getResult
  setSingleRowMode _ h := h.setSingleRowMode
  setChunkedRowsMode _ size h := h.setChunkedRowsMode size
  cancel _ h := h.cancel
  getCopyData _ h := h.getCopyData
  putCopyData _ data h := h.putCopyData data
  putCopyEnd _ m h := h.putCopyEnd m
  enterPipelineMode _ h := h.enterPipelineMode
  exitPipelineMode _ h := h.exitPipelineMode
  pipelineSync _ h := h.pipelineSync

end PGconn

/-- A timeout, a lost connection, or an exception of a notification handler. -/
def Exn.excused : Exn → Bool
  | .timeoutReached _ | .connectionError _ | .user => true
  | _ => false

/-! ### Reading from the connection

Whatever the world does, reading takes away what comes first, or throws; it throws only when what is waited
for does not arrive, or a handler throws. -/

namespace Connection

variable {c : Connection DB} {rest : List (Item DB)}

/-- The connection is as before, except that `items` are to be read, and for the time and the record of calls. -/
def ReadsTo (c : Connection DB) (items : List (Item DB)) (c' : Connection DB) : Prop :=
  ∃ n calls, c' = { c with pg := { c.pg with stream := items, clock := n }, calls := calls }

theorem ReadsTo.trans {items items' : List (Item DB)} {c₁ c₂ : Connection DB} (h : c.ReadsTo items c₁)
    (h' : c₁.ReadsTo items' c₂) : c.ReadsTo items' c₂ := by
  obtain ⟨n, calls, rfl⟩ := h
  obtain ⟨n', calls', rfl⟩ := h'
  exact ⟨n', calls', rfl⟩

/-- The connection is as before, except that `items` are to be read, that the time is `n`, and for the record of
calls. -/
def ReadsAt (c : Connection DB) (items : List (Item DB)) (n : Nat) (c' : Connection DB) : Prop :=
  ∃ calls, c' = { c with pg := { c.pg with stream := items, clock := n }, calls := calls }

theorem ReadsAt.trans {items items' : List (Item DB)} {n n' : Nat} {c₁ c₂ : Connection DB} (h : c.ReadsAt items n c₁)
    (h' : c₁.ReadsAt items' n' c₂) : c.ReadsAt items' n' c₂ := by
  obtain ⟨calls, rfl⟩ := h
  obtain ⟨calls', rfl⟩ := h'
  exact ⟨calls', rfl⟩

theorem ReadsAt.readsTo {items : List (Item DB)} {n : Nat} {c' : Connection DB} (h : c.ReadsAt items n c') :
    c.ReadsTo items c' :=
  ⟨n, h⟩

theorem wp_wait_at (c : Connection DB) :
    wp False (wait W) (fun _ c' => c.ReadsAt c.pg.stream (c.pg.clock + 1) c' ∧ W.wait c.pg.clock = .ready)
      (fun e _ => e.excused = true ∧ W.wait c.pg.clock ≠ .ready) c := by
  unfold wp wait
  cases hw : W.wait c.pg.clock with
  | ready => exact ⟨⟨_, rfl⟩, rfl⟩
  | timeout => exact ⟨rfl, by simp⟩
  | broken => exact ⟨rfl, by simp⟩
  | handler => exact ⟨rfl, by simp⟩

theorem wp_waitWhen_reads (busy : PGconn DB → Bool) (c : Connection DB) :
    wp False (waitWhen W busy) (fun _ => c.ReadsTo c.pg.stream) (fun _ _ => ¬ W.Reliable) c := by
  simp only [waitWhen, wp_bind, wp_get, wp_ite, wp_pure]
  refine ⟨fun _ => ?_, fun _ => ⟨_, _, rfl⟩⟩
  exact wp_mono (wp_wait_at c) (fun _ _ h => h.1.readsTo) fun _ _ he hW => he.2 (hW.wait _)

theorem wp_handleNotifications_at (c : Connection DB) :
    wp False (handleNotifications W)
      (fun _ c' => c.ReadsAt c.pg.stream (c.pg.clock + 1) c' ∧ W.handlerThrows c.pg.clock = false)
      (fun e _ => e.excused = true ∧ W.handlerThrows c.pg.clock ≠ false) c := by
  unfold wp handleNotifications
  cases hw : W.handlerThrows c.pg.clock with
  | true => exact ⟨rfl, by simp⟩
  | false => exact ⟨⟨_, rfl⟩, rfl⟩

theorem wp_handleNotifications_reads (c : Connection DB) :
    wp False (handleNotifications W) (fun _ => c.ReadsTo c.pg.stream) (fun _ _ => ¬ W.Reliable) c :=
  wp_mono (wp_handleNotifications_at c) (fun _ _ h => h.1.readsTo) fun _ _ he hW => he.2 (hW.handlerThrows _)

/-- `connection::get_result` takes away what `PQgetResult` does. -/
theorem wp_getResult_reads {r : Option PGresult} {rest : List (Item DB)}
    (hread : ∀ n, ({ c.pg with clock := n } : PGconn DB).getResult = ({ c.pg with stream := rest, clock := n }, r)) :
    wp False (getResult W) (fun r' c' => r' = r ∧ c.ReadsTo rest c') (fun _ _ => ¬ W.Reliable) c := by
  simp only [getResult, wp_bind, wp_libpq, wp_pure]
  refine wp_mono (wp_waitWhen_reads _ c) (fun _ c₁ h₁ => ?_) (fun _ _ => id)
  obtain ⟨n, calls, rfl⟩ := h₁
  simp only [hread n]
  refine wp_mono (wp_handleNotifications_reads _) (fun _ c₂ h₂ => ⟨trivial, ?_⟩) (fun _ _ => id)
  exact .trans ⟨n, _, rfl⟩ h₂

/-- `connection::get_result`, when there is something to wait for. -/
theorem wp_getResult_at {r : Option PGresult} (hbusy : c.pg.isBusy = true)
    (hread : ∀ n, ({ c.pg with clock := n } : PGconn DB).getResult = ({ c.pg with stream := rest, clock := n }, r)) :
    wp False (getResult W) (fun v c' => v = r ∧ c.ReadsAt rest (c.pg.clock + 2) c' ∧ W.Delivers c.pg.clock)
      (fun e _ => e.excused = true ∧ ¬ W.Delivers c.pg.clock) c := by
  simp only [getResult, waitWhen, wp_bind, wp_get, hbusy, ↓reduceIte, wp_libpq, wp_pure]
  refine wp_mono (wp_wait_at c) (fun _ c₁ h₁ => ?_) (fun _ _ he => ⟨he.1, fun hd => he.2 hd.1⟩)
  obtain ⟨⟨calls, rfl⟩, hready⟩ := h₁
  simp only [hread]
  refine wp_mono (wp_handleNotifications_at _) (fun _ c₂ h₂ => ?_) (fun _ _ he => ⟨he.1, fun hd => he.2 hd.2⟩)
  exact ⟨trivial, .trans ⟨_, rfl⟩ h₂.1, hready, h₂.2⟩

theorem wp_getResult_result_at (ho : c.pg.isOpen = true) {r : PGresult} (hs : c.pg.stream = .result r :: rest) :
    wp False (getResult W) (fun v c' => v = some r ∧ c.ReadsAt rest (c.pg.clock + 2) c' ∧ W.Delivers c.pg.clock)
      (fun e _ => e.excused = true ∧ ¬ W.Delivers c.pg.clock) c :=
  wp_getResult_at (by simp [PGconn.isBusy, ho, hs]) fun n => by simp [PGconn.getResult, ho, hs]

/-- `connection::get_copy_data` takes away a row, once it has arrived. -/
theorem wp_getCopyData_row (ho : c.pg.isOpen = true) {columns : Nat} {row : Chunk} {rows : List Chunk}
    (hs : c.pg.stream = .copyOut columns (row :: rows) :: rest) :
    wp False (getCopyData W) (fun d c' => d = some row ∧
      c.ReadsAt (.copyOut columns rows :: rest) (c.pg.clock + 1) c' ∧ W.wait c.pg.clock = .ready)
      (fun e _ => e.excused = true ∧ W.wait c.pg.clock ≠ .ready) c := by
  have hbusy : c.pg.isBusy = true := by simp [PGconn.isBusy, ho, hs]
  have hread (n : Nat) : ({ c.pg with clock := n } : PGconn DB).getCopyData =
      ({ c.pg with stream := .copyOut columns rows :: rest, clock := n }, .row row) := by simp [PGconn.getCopyData, ho, hs]
  simp only [getCopyData, waitWhen, wp_bind, wp_get, hbusy, ↓reduceIte, wp_libpq]
  refine wp_mono (wp_wait_at c) (fun _ c₁ h₁ => ?_) (fun _ _ => id)
  obtain ⟨⟨calls, rfl⟩, hready⟩ := h₁
  simp only [hread, wp_pure]
  exact ⟨trivial, ⟨_, rfl⟩, hready⟩

/-- `connection::get_copy_data` at the end of the data. -/
theorem wp_getCopyData_done (ho : c.pg.isOpen = true) {columns : Nat}
    (hs : c.pg.stream = .copyOut columns [] :: rest) :
    wp False (getCopyData W) (fun d c' => d = none ∧ c.ReadsAt rest (c.pg.clock + 1) c' ∧
      W.wait c.pg.clock = .ready) (fun e _ => e.excused = true ∧ W.wait c.pg.clock ≠ .ready) c := by
  have hbusy : c.pg.isBusy = true := by simp [PGconn.isBusy, ho, hs]
  have hread (n : Nat) : ({ c.pg with clock := n } : PGconn DB).getCopyData =
      ({ c.pg with stream := rest, clock := n }, .done) := by simp [PGconn.getCopyData, ho, hs]
  simp only [getCopyData, waitWhen, wp_bind, wp_get, hbusy, ↓reduceIte, wp_libpq]
  refine wp_mono (wp_wait_at c) (fun _ c₁ h₁ => ?_) (fun _ _ => id)
  obtain ⟨⟨calls, rfl⟩, hready⟩ := h₁
  simp only [hread, wp_pure]
  exact ⟨trivial, ⟨_, rfl⟩, hready⟩

theorem wp_getResult_next (ho : c.pg.isOpen = true) {r : PGresult} (hs : c.pg.stream = .result r :: rest) :
    wp False (getResult W) (fun r' c' => r' = some r ∧ c.ReadsTo rest c') (fun _ _ => ¬ W.Reliable) c :=
  wp_getResult_reads fun n => by simp [PGconn.getResult, ho, hs]

/-- A call of libpq that succeeds. -/
theorem wp_libpqOr_true {call : LibpqCall} {f : PGconn DB → PGconn DB × Bool} {e : Exn} (hf : (f c.pg).2 = true)
    {Q : Unit → Connection DB → Prop} {E : Exn → Connection DB → Prop}
    (hQ : Q () { c with pg := (f c.pg).1, calls := call :: c.calls }) : wp False (libpqOr call f e) Q E c := by
  simp only [libpqOr, wp_bind, wp_libpq, hf, ↓reduceIte, wp_pure]
  exact hQ

theorem wp_consumeEmptyResult_next (ho : c.pg.isOpen = true) (hs : c.pg.stream = .null :: rest) :
    wp False (consumeEmptyResult W) (fun _ c' => c.ReadsTo rest c') (fun _ _ => ¬ W.Reliable) c := by
  have hread : wp False (getResult W) (fun r c' => r = none ∧ c.ReadsTo rest c') (fun _ _ => ¬ W.Reliable) c :=
    wp_getResult_reads fun n => by simp [PGconn.getResult, ho, hs]
  simp only [consumeEmptyResult, wp_bind]
  refine wp_mono hread (fun v c₁ h₁ => ?_) (fun _ _ => id)
  obtain ⟨rfl, h₁⟩ := h₁
  exact h₁

end Connection

theorem Reaches.proper {ok : State DB → Call DB → Prop} {s : State DB} (h : Reaches W ok s) : s.conn.pg.Proper :=
  h.preserved PGconn.proper_preserved fun _ _ hr => by cases hr

/-! ### A reader whose COPY is under way -/

/-- The result of a COPY TO when all rows were delivered. -/
def copyAnswer (rows : List Chunk) (completes : Bool) : PGresult :=
  if completes then ⟨.commandOk, .other, 0, 0, some rows.length⟩ else .fatal

/-- What the connection shows while a COPY TO is read: `rows`, the result of the command, and the null pointer. -/
structure Connection.Copying (c : Connection DB) (columns : Nat) (rows : List Chunk) (answer : PGresult) : Prop where
  isOpen : c.pg.isOpen = true
  pipeline : c.pg.pipeline = false
  stream : c.pg.stream = [.copyOut columns rows, .result answer, .null]

/-- The table reader at `b` has `rows` to read, and holds the connection by its guard. -/
structure State.Copying (s : State DB) (b columns : Nat) (rows : List Chunk) (answer : PGresult) : Prop where
  owned : s.Owned
  reader : ∃ o g p buffer, s.bulk b = some ⟨true, some o, some g, columns, buffer⟩ ∧
    s.object g = some ⟨.transactionGuard p, true⟩
  conn : s.conn.Copying columns rows answer

namespace PGconn

variable {c : PGconn DB}

/-- A result announces a COPY TO only if one is in progress. -/
theorem Proper.copyOut_of_getResult (h : c.Proper) {r : PGresult} (hr : c.getResult.2 = some r)
    (hs : r.status = .copyOut) : ∃ columns rows rest, c.stream = .copyOut columns rows :: rest ∧
      r = ⟨.copyOut, .other, columns, 0, none⟩ ∧ c.getResult.1 = c ∧ c.isOpen = true := by
  unfold PGconn.getResult at hr ⊢
  split at hr
  · cases hr
  · rename_i ho
    split at hr
    · cases hr
    · rename_i x rest hstream
      obtain rfl := Option.some.inj hr
      exact absurd hs (h _ (hstream ▸ List.mem_cons_self)).2
    · cases hr
    · obtain rfl := Option.some.inj hr
      cases hs
    · rename_i columns rows rest hstream
      obtain rfl := Option.some.inj hr
      rw [hstream]
      exact ⟨columns, rows, rest, rfl, rfl, by simp at ho; simp [ho], by simpa using ho⟩

/-- Behind what is there, an answer does not begin a COPY. -/
theorem inCopy_append {c' : PGconn DB} {r : PGresult} {rest : List (Item DB)}
    (hs : c'.stream = c.stream ++ .result r :: rest) : c'.inCopy = c.inCopy := by
  unfold inCopy
  rw [hs]
  cases c.stream with
  | nil => rfl
  | cons i items => cases i <;> rfl

/-- When a COPY TO is in progress behind a statement just sent, it is that of the statement. -/
theorem send_copyTo (byName : Bool) {u : Statement DB} {columns : Nat} {rows : List Chunk} {completes : Bool}
    (hu : u.body = .copyTo columns rows completes) (hsent : (c.send W byName (.user u)).2 = true)
    (hcopy : (c.send W byName (.user u)).1.inCopy = true) :
    (c.send W byName (.user u)).1.pipeline = false ∧
      (c.send W byName (.user u)).1.stream = [.copyOut columns rows, .result (copyAnswer rows completes), .null] := by
  revert hsent hcopy
  unfold PGconn.send
  by_cases ho : c.isOpen = true
  · by_cases hp : c.pipeline = true
    · -- in pipeline mode, no COPY begins
      by_cases hc : c.inCopy = true
      · simp [ho, hp, hc]
      · intro _ hcopy
        simp only [ho, hp, hc, Bool.not_true, Bool.false_eq_true, ↓reduceIte] at hcopy
        exfalso
        split at hcopy
        · exact hc ((inCopy_append rfl).symm.trans hcopy)
        · exact hc ((inCopy_append rfl).symm.trans hcopy)
    · have hp : c.pipeline = false := Bool.eq_false_iff.2 hp
      simp only [ho, hp, Bool.not_true, Bool.false_eq_true, ↓reduceIte, run, hu, runUser, copyAnswer]
      repeat' split
      all_goals simp_all [inCopy]
  · simp [ho]

end PGconn

namespace Connection

variable {c : Connection DB}

/-- `connection::get_result` announces a COPY TO only if one is in progress, and it still is afterwards. -/
theorem wp_getResult_copying (hp : c.pg.Proper) :
    wp True (getResult W) (fun r c' => statusOf r = .copyOut → c.pg.isOpen = true ∧
      ∃ columns rows rest, c.pg.stream = .copyOut columns rows :: rest ∧ r.map PGresult.nfields = some columns ∧
        c.ReadsTo c.pg.stream c') (fun _ _ => True) c := by
  simp only [getResult, wp_bind, wp_libpq, wp_pure]
  refine wp_mono (wp_weaken (wp_waitWhen_reads _ c)) (fun _ c₁ h₁ => ?_) (fun _ _ _ => trivial)
  obtain ⟨n, calls, rfl⟩ := h₁
  refine wp_mono (wp_weaken (wp_handleNotifications_reads _)) (fun _ c₂ h₂ hr => ?_) (fun _ _ _ => trivial)
  have hp' : ({ c.pg with clock := n } : PGconn DB).Proper := hp
  cases hread : ({ c.pg with clock := n } : PGconn DB).getResult.2 with
  | none =>
    rw [hread] at hr
    cases hr
  | some r =>
    rw [hread] at hr
    obtain ⟨columns, rows, rest, hs, rfl, hsame, ho⟩ := hp'.copyOut_of_getResult hread hr
    refine ⟨ho, columns, rows, rest, hs, rfl, ?_⟩
    have h₂ : ReadsTo { c with pg := ({ c.pg with clock := n } : PGconn DB).getResult.1, calls := _ }
        ({ c.pg with clock := n } : PGconn DB).getResult.1.stream c₂ := h₂
    rw [hsame] at h₂
    exact .trans ⟨n, _, rfl⟩ h₂

end Connection

/-- `table_reader::check_result` returns only if the COPY has begun. -/
private theorem wp_readerCheckResult_copying {s : State DB} {o g p : Addr} {b columns : Nat} {rows : List Chunk}
    {answer : PGresult} {buffer : Option Chunk} (hbulk : s.bulk b = some ⟨true, some o, some g, 0, buffer⟩)
    (hguard : s.object g = some ⟨.transactionGuard p, true⟩) (hproper : s.conn.pg.Proper)
    (hcopy : s.conn.pg.inCopy = true → s.conn.pg.pipeline = false ∧
      s.conn.pg.stream = [.copyOut columns rows, .result answer, .null])
    {E : Exn → State DB → Prop} (hE : ∀ e t, E e t) :
    wp True (readerCheckResult W b) (fun _ s => (∃ o g p buffer,
      s.bulk b = some ⟨true, some o, some g, columns, buffer⟩ ∧ s.object g = some ⟨.transactionGuard p, true⟩) ∧
      s.conn.Copying columns rows answer) E s := by
  simp only [readerCheckResult, guardOf, derefConnection, wp_bind, wp_derefBulk, hbulk, Option.some.injEq, forall_eq',
    wp_derefPointer_some, wp_deref, hguard, ↓reduceIte, wp_pure, implies_true, and_true, wp_onConnection]
  intro _
  refine wp_mono (Connection.wp_getResult_copying hproper) (fun r c hr => ?_) (fun e _ _ => hE e _)
  have throws {x : Prog DB Unit} {e : Exn} {Q : Unit → State DB → Prop} {t : State DB} :
      wp True (do x; Exec.throw e) Q E t := by
    rw [wp_bind]
    exact wp_trivial (fun _ _ => hE _ _) hE
  have refused {x : Prog DB Unit} {r : Option PGresult} {Q : Unit → State DB → Prop} {t : State DB} :
      wp True (do x; onConnection (Connection.throwSqlstate r)) Q E t := by
    rw [wp_bind]
    refine wp_trivial (fun _ _ => ?_) hE
    cases r <;> exact hE _ _
  cases hstatus : Connection.statusOf r with
  | copyOut =>
    obtain ⟨ho, columns', rows', rest, hs, hfields, n, calls, rfl⟩ := hr hstatus
    obtain ⟨hp, hstream⟩ := hcopy (by simp [PGconn.inCopy, hs])
    have hfirst : Item.copyOut columns rows = Item.copyOut columns' rows' :=
      (List.cons.inj (hstream.symm.trans hs)).1
    obtain ⟨rfl, rfl⟩ := Item.copyOut.inj hfirst
    have hbulk' (c : Connection DB) :
        ({ s with conn := c } : State DB).bulk b = some ⟨true, some o, some g, 0, buffer⟩ :=
      hbulk
    simp only [wp_bind, wp_derefBulk, hbulk', Option.some.injEq, forall_eq', wp_putBulk, hfields, Option.getD_some,
      reduceCtorEq, false_implies, and_true]
    refine ⟨⟨o, g, p, buffer, ?_, hguard⟩, ho, hp, hstream⟩
    exact (State.bulk_insert s b _ b).trans (if_pos rfl)
  | copyIn =>
    rw [wp_bind]
    exact wp_trivial (fun _ _ => trivial) hE
  | commandOk => exact throws
  | tuplesOk => exact throws
  | emptyQuery => exact throws
  | fatalError => exact refused
  | singleTuple => exact refused
  | tuplesChunk => exact refused
  | pipelineSync => exact refused
  | pipelineAborted => exact refused

/-- A table reader that was constructed for a COPY TO has all its rows before it. -/
theorem copying_of_tableReader {s₀ s : State DB} {o g : Addr} {b : Nat} {u : Statement DB} {columns : Nat}
    {rows : List Chunk} {completes : Bool} (hs₀ : Reachable W s₀) (hl : (Call.tableReader o g b u).Legal s₀)
    (hu : u.body = .copyTo columns rows completes) (hctor : tableReader W o g b u s₀ = .ret () s) :
    s.Copying b columns rows (copyAnswer rows completes) := by
  have howned : s.Owned := owned_step hs₀.owned ⟨hl, by rw [perform, hctor]; rfl⟩
  have hproper := hs₀.proper
  suffices h : wp True (tableReader W o g b u) (fun _ s => (∃ o g p buffer,
      s.bulk b = some ⟨true, some o, some g, columns, buffer⟩ ∧ s.object g = some ⟨.transactionGuard p, true⟩) ∧
      s.conn.Copying columns rows (copyAnswer rows completes)) (fun _ _ => True) s₀ by
    obtain ⟨hreader, hconn⟩ := wp_ret h hctor
    exact ⟨howned, hreader, hconn⟩
  simp only [tableReader, newBulk, newTransactionGuard, newSubtransactionBase, wp_bind, wp_get]
  refine wp_derefConnection o fun x hx hc => ?_
  cases hcurrent : s₀.current with
  | none => exact trivial
  | some p =>
    simp only [wp_derefPointer_some, wp_putObject, wp_setCurrent, wp_putBulk, wp_catchAll, wp_bind, wp_throw,
      implies_true, and_true, ↓reduceIte]
    intro _
    generalize hs₁ : ({ s₀ with
      objects := s₀.objects.insert g ⟨.transactionGuard p, true⟩
      current := some g
      bulks := s₀.bulks.insert b ⟨true, some o, some g, 0, none⟩ } : State DB) = s₁
    have hconn : s₁.conn = s₀.conn := by rw [← hs₁]
    have hguard : s₁.object g = some ⟨.transactionGuard p, true⟩ := by
      rw [← hs₁]
      exact (State.object_insert s₀ g _ g).trans (if_pos rfl)
    have hbulk : s₁.bulk b = some ⟨true, some o, some g, 0, none⟩ := by
      rw [← hs₁]
      exact (State.bulk_insert s₀ b _ b).trans (if_pos rfl)
    have hcurrent₁ : s₁.current = some g := by rw [← hs₁]
    have fails {x : Prog DB Unit} {t : State DB} :
        wp True x (fun _ _ => True) (fun _ _ => True) t := wp_trivial (fun _ _ => trivial) fun _ _ => trivial
    clear hs₁
    simp only [send, wp_bind]
    rw [wp_check_current hguard rfl hcurrent₁]
    simp only [wp_onConnection, Connection.sendParams, Connection.libpqOr, wp_bind, wp_get, wp_libpq, wp_ite, wp_pure,
      wp_throw]
    generalize s₁.conn.prepared.contains _ = byName
    generalize (if byName = true then LibpqCall.sendQueryPrepared else .sendQueryParams) = call
    refine ⟨fun hsent => ?_, fun _ => fails⟩
    have hproper₂ : (s₁.conn.pg.send W byName (.user u)).1.Proper := (hconn ▸ hproper).send byName _
    have hcopy := PGconn.send_copyTo byName hu hsent
    generalize (s₁.conn.pg.send W byName (.user u)).1 = pg at hproper₂ hcopy
    exact wp_readerCheckResult_copying (s := { s₁ with conn := ⟨pg, _, _⟩ }) hbulk hguard hproper₂ hcopy
      fun _ _ => fails

/-! ### Reading the rows -/

section Reader

variable {s : State DB} {b columns : Nat} {k : Bulk} {answer : PGresult}

/-- What releasing a reference leaves behind while a result is unread. -/
private theorem wp_release_unread {a : Addr} (h : s.Owned) (hs : s.Unread) (ha : (s.object a).isSome) :
    wp False (release W a) (fun _ s' => s'.Owned ∧ Silent s s') (fun _ _ => False) s :=
  wp_mono (wp_of_returns (release_returns h ha) (wp_and (release_owned a s h) (release_silent hs)))
    (fun _ _ hq => ⟨hq.1.1, hq.2⟩) fun _ _ => id

private theorem wp_resetTransaction (h : s.Owned) (hs : s.Unread) (hk : s.bulk b = some k) :
    wp False (resetTransaction W b) (fun _ s' => s'.Owned ∧ s'.conn.pg = s.conn.pg ∧
      s'.bulk b = some { k with transaction := none }) (fun _ _ => False) s := by
  simp only [resetTransaction, wp_bind, wp_derefBulk, hk, Option.some.injEq, forall_eq', wp_putBulk, reduceCtorEq,
    false_implies, and_true]
  have hl := h.changeBulk { k with transaction := none } hk fun p hp => hp.imp_right fun hp => by cases hp
  have hbulk := (State.bulk_insert s b { k with transaction := none } b).trans (if_pos rfl)
  cases hg : k.transaction with
  | none => exact ⟨hl.1, rfl, hbulk⟩
  | some g =>
    have halive : (s.object g).isSome := h.alive g (.inr (.inr ⟨b, k, hk, .inr hg⟩))
    refine wp_mono (wp_release_unread hl.1 hs halive) (fun _ s' h' => ?_) (fun _ _ => id)
    refine ⟨h'.1, h'.2.1, ?_⟩
    unfold State.bulk at hbulk ⊢
    rw [h'.2.2]
    exact hbulk

private theorem wp_resetPrevious (h : s.Owned) (hs : s.Unread) (hk : s.bulk b = some k) :
    wp False (resetPrevious W b) (fun _ s' => s'.Owned ∧ s'.conn.pg = s.conn.pg ∧
      s'.bulk b = some { k with previous := none }) (fun _ _ => False) s := by
  simp only [resetPrevious, wp_bind, wp_derefBulk, hk, Option.some.injEq, forall_eq', wp_putBulk, reduceCtorEq,
    false_implies, and_true]
  have hl := h.changeBulk { k with previous := none } hk fun p hp => hp.imp_left fun hp => by cases hp
  have hbulk := (State.bulk_insert s b { k with previous := none } b).trans (if_pos rfl)
  cases ho : k.previous with
  | none => exact ⟨hl.1, rfl, hbulk⟩
  | some o =>
    have halive : (s.object o).isSome := h.alive o (.inr (.inr ⟨b, k, hk, .inl ho⟩))
    refine wp_mono (wp_release_unread hl.1 hs halive) (fun _ s' h' => ?_) (fun _ _ => id)
    refine ⟨h'.1, h'.2.1, ?_⟩
    unfold State.bulk at hbulk ⊢
    rw [h'.2.2]
    exact hbulk

/-- Both references of a reader or writer are given up. -/
private theorem wp_resetBoth (h : s.Owned) (hs : s.Unread) (hk : s.bulk b = some k) {Q : Unit → State DB → Prop}
    {E : Exn → State DB → Prop} (hQ : ∀ s' : State DB, s'.Owned → s'.conn.pg = s.conn.pg →
      s'.bulk b = some { k with transaction := none, previous := none } → Q () s') :
    wp False (resetTransaction W b) (fun _ => wp False (resetPrevious W b) Q E) E s := by
  refine wp_mono (wp_resetTransaction h hs hk) (fun _ s₁ h₁ => ?_) fun _ _ => False.elim
  obtain ⟨howned₁, hpg₁, hk₁⟩ := h₁
  have hs₁ : s₁.Unread := by
    unfold State.Unread
    rw [hpg₁]
    exact hs
  refine wp_mono (wp_resetPrevious howned₁ hs₁ hk₁) (fun _ s₂ h₂ => ?_) fun _ _ => False.elim
  exact hQ s₂ h₂.1 (h₂.2.1.trans hpg₁) h₂.2.2

/-- `get_raw_data` takes away a row, once it has arrived. -/
theorem wp_getRawData_row {row : Chunk} {rows : List Chunk} (h : s.Copying b columns (row :: rows) answer) :
    wp False (getRawData W b) (fun v s' => v = some row ∧ s'.Copying b columns rows answer ∧
      (∃ k, s'.bulk b = some k ∧ k.buffer = some row ∧ k.columns = columns) ∧
      W.wait s.conn.pg.clock = .ready ∧ s'.conn.pg.clock = s.conn.pg.clock + 1)
      (fun _ _ => W.wait s.conn.pg.clock ≠ .ready) s := by
  obtain ⟨o, g, p, buffer, hk, hg⟩ := h.reader
  simp only [getRawData, guardOf, derefConnection, wp_bind, wp_derefBulk, hk, Option.some.injEq, forall_eq',
    wp_derefPointer_some, wp_deref, hg, ↓reduceIte, wp_pure, reduceCtorEq, false_implies, and_true, wp_onConnection]
  intro _
  refine wp_mono (Connection.wp_getCopyData_row h.conn.isOpen h.conn.stream) (fun d c hd => ?_) fun _ _ => And.right
  obtain ⟨rfl, ⟨calls, rfl⟩, hready⟩ := hd
  have hk' (c : Connection DB) : ({ s with conn := c } : State DB).bulk b =
      some ⟨true, some o, some g, columns, buffer⟩ := hk
  simp only [hk', Option.some.injEq, forall_eq', wp_putBulk, wp_pure, true_and, reduceCtorEq, false_implies, and_true]
  have hbulk := (State.bulk_insert s b ⟨true, some o, some g, columns, some row⟩ b).trans (if_pos rfl)
  refine ⟨⟨?_, ⟨o, g, p, some row, hbulk, hg⟩, h.conn.isOpen, h.conn.pipeline, rfl⟩, ⟨_, hbulk, rfl, rfl⟩,
    hready⟩
  exact ((h.owned.changeBulk ⟨true, some o, some g, columns, some row⟩ hk fun _ => id).1.conn _).1

/-- At the end of the data, `get_raw_data` reads the result of the command, once it has arrived, and lets go of the
connection.  The null pointer behind the result is still to be read. -/
theorem wp_getRawData_done (h : s.Copying b columns [] answer) (ha : answer.status = .commandOk) :
    wp False (getRawData W b) (fun v s' => v = none ∧ s'.conn.pg.stream = [.null] ∧ s'.conn.pg.pipeline = false ∧
      s'.conn.pg.isOpen = true ∧ s'.Owned ∧ s'.bulk b = some ⟨true, none, none, columns, none⟩ ∧
      W.DeliversRows 0 s.conn.pg.clock) (fun _ _ => ¬ W.DeliversRows 0 s.conn.pg.clock) s := by
  obtain ⟨o, g, p, buffer, hk, hg⟩ := h.reader
  simp only [getRawData, guardOf, derefConnection, wp_bind, wp_derefBulk, hk, Option.some.injEq, forall_eq',
    wp_derefPointer_some, wp_deref, hg, ↓reduceIte, wp_pure, reduceCtorEq, false_implies, and_true, wp_onConnection]
  intro _
  refine wp_mono (Connection.wp_getCopyData_done h.conn.isOpen h.conn.stream) (fun d c hd => ?_)
    fun _ _ he hd => he.2 (World.deliversRows_zero.1 hd).1
  obtain ⟨rfl, ⟨calls, rfl⟩, hready⟩ := hd
  have hk' (c : Connection DB) : ({ s with conn := c } : State DB).bulk b =
      some ⟨true, some o, some g, columns, buffer⟩ := hk
  simp only [hk', Option.some.injEq, forall_eq', wp_putBulk, wp_bind, wp_onConnection, reduceCtorEq, false_implies,
    and_true]
  refine wp_mono (Connection.wp_getResult_result_at
    (c := ⟨{ s.conn.pg with stream := _, clock := s.conn.pg.clock + 1 }, _, _⟩) h.conn.isOpen rfl) (fun r c hr => ?_)
    fun _ _ he hd => he.2 (World.deliversRows_zero.1 hd).2
  obtain ⟨rfl, ⟨calls', rfl⟩, hdelivers⟩ := hr
  simp only [wp_bind, wp_onConnection, Connection.result, ha, wp_pure]
  have hbulk := (State.bulk_insert s b ⟨true, some o, some g, columns, none⟩ b).trans (if_pos rfl)
  have howned := (h.owned.changeBulk ⟨true, some o, some g, columns, none⟩ hk fun _ => id).1
  have hunread (calls : List LibpqCall) : ({ s with
      conn := ⟨{ s.conn.pg with stream := [.null], clock := s.conn.pg.clock + 1 + 2 }, s.conn.prepared, calls⟩
      bulks := s.bulks.insert b ⟨true, some o, some g, columns, none⟩ } : State DB).Unread :=
    ⟨h.conn.isOpen, List.cons_ne_nil _ _⟩
  refine wp_resetBoth (howned.conn _).1 (hunread _) hbulk fun s' howned' hpg hbulk' => ⟨trivial, ?_⟩
  rw [hpg]
  exact ⟨rfl, h.conn.pipeline, h.conn.isOpen, howned', hbulk', World.deliversRows_zero.2 ⟨hready, hdelivers⟩⟩

/-- When the COPY has failed, `get_raw_data` throws at the end of the data. -/
theorem wp_getRawData_failed (h : s.Copying b columns [] answer) (ha : answer.status = .fatalError) :
    wp False (getRawData W b) (fun _ _ => False) (fun _ _ => True) s := by
  obtain ⟨o, g, p, buffer, hk, hg⟩ := h.reader
  simp only [getRawData, guardOf, derefConnection, wp_bind, wp_derefBulk, hk, Option.some.injEq, forall_eq',
    wp_derefPointer_some, wp_deref, hg, ↓reduceIte, wp_pure, reduceCtorEq, false_implies, and_true, wp_onConnection]
  intro _
  refine wp_mono (Connection.wp_getCopyData_done h.conn.isOpen h.conn.stream) (fun d c hd => ?_) fun _ _ _ => trivial
  obtain ⟨rfl, ⟨calls, rfl⟩, -⟩ := hd
  have hk' (c : Connection DB) : ({ s with conn := c } : State DB).bulk b =
      some ⟨true, some o, some g, columns, buffer⟩ := hk
  simp only [hk', Option.some.injEq, forall_eq', wp_putBulk, wp_bind, wp_onConnection, reduceCtorEq, false_implies,
    and_true]
  refine wp_mono (Connection.wp_getResult_next
    (c := ⟨{ s.conn.pg with stream := _, clock := s.conn.pg.clock + 1 }, _, _⟩) h.conn.isOpen rfl) (fun r c hr => ?_)
    fun _ _ _ => trivial
  obtain ⟨rfl, n', calls', rfl⟩ := hr
  simp only [wp_bind, wp_onConnection, Connection.result, ha, wp_throw]

/-- A reader that has let go of the connection has nothing to read from. -/
theorem getRawData_released (hk : s.bulk b = some ⟨true, none, none, columns, none⟩) :
    getRawData W b s = .undefined := by
  refine eq_undefined ?_
  simp [getRawData, guardOf, hk]

/-- Destroying a reader sends nothing and reads nothing. -/
theorem wp_destroyBulk_reader (h : s.Owned) (hs : s.Unread) (hk : s.bulk b = some k) (hr : k.reader = true) :
    wp False (destroyBulk W b) (fun _ s' => s'.conn.pg = s.conn.pg) (fun _ _ => False) s := by
  simp only [destroyBulk, wp_bind, wp_derefBulk, hk, Option.some.injEq, forall_eq', hr, destroyMembers, wp_modify,
    reduceCtorEq, false_implies, and_true]
  exact wp_resetBoth h hs hk fun s' _ hpg _ => hpg

end Reader

/-! ### What a reader leaves behind -/

/-- So many calls of `get_raw_data`. -/
def readRaw (W : World) (b : Nat) : Nat → Prog DB (List (Option Chunk))
  | 0 => return []
  | k + 1 => do
    let data ← getRawData W b
    let rest ← readRaw W b k
    return data :: rest

/-- The results of the last command have been read, with the null pointer behind them. -/
def State.Drained (s : State DB) : Prop := s.conn.pg.stream = []

/-- No transaction can send a command. -/
def State.Refuses (W : World) (s : State DB) : Prop := ∀ p cmd s', send W p cmd s ≠ .ret () s'

theorem State.refuses_of_unread {s : State DB} (hp : s.conn.pg.pipeline = false) (hs : s.conn.pg.stream ≠ []) :
    s.Refuses W := by
  intro p cmd s' hret
  have h : wp True (send W p cmd) (fun _ _ => False) (fun _ _ => True) s := by
    simp only [send, wp_bind]
    rw [wp_checkCurrentTransaction]
    refine ⟨fun o _ => ⟨fun _ => ?_, fun _ => trivial⟩, fun _ => trivial⟩
    rw [wp_onConnection]
    exact Connection.wp_sendParams_refused cmd (.inr ⟨hp, hs⟩) fun _ _ => trivial
  exact wp_ret h hret

/-- After some of the rows, or all of them and the end of the data, something is left to be read. -/
private theorem wp_readRaw {s : State DB} {b columns : Nat} {rows : List Chunk} {completes : Bool} {total : List Chunk}
    (h : s.Copying b columns rows (copyAnswer total completes)) (k : Nat) :
    wp True (readRaw W b k) (fun _ s' => s'.Owned ∧ s'.Unread ∧ s'.conn.pg.pipeline = false ∧
      ∃ k, s'.bulk b = some k ∧ k.reader = true) (fun _ _ => True) s := by
  induction k generalizing s rows with
  | zero =>
    obtain ⟨o, g, p, buffer, hk, _⟩ := h.reader
    have hunread : s.conn.pg.stream ≠ [] := by simp [h.conn.stream]
    rw [readRaw, wp_pure]
    exact ⟨h.owned, ⟨h.conn.isOpen, hunread⟩, h.conn.pipeline, _, hk, rfl⟩
  | succ k ih =>
    simp only [readRaw, wp_bind, wp_pure]
    cases rows with
    | cons row rows =>
      refine wp_mono (wp_weaken (wp_getRawData_row h)) (fun _ s₁ h₁ => ?_) (fun _ _ _ => trivial)
      exact wp_mono (ih h₁.2.1) (fun _ _ => id) (fun _ _ => id)
    | nil =>
      cases completes with
      | false => exact wp_mono (wp_weaken (wp_getRawData_failed h rfl)) (fun _ _ => False.elim) (fun _ _ => id)
      | true =>
        refine wp_mono (wp_weaken (wp_getRawData_done h rfl)) (fun _ s₁ h₁ => ?_) (fun _ _ _ => trivial)
        obtain ⟨-, hs, hp, ho, howned, hk, -⟩ := h₁
        cases k with
        | zero =>
          rw [readRaw, wp_pure]
          exact ⟨howned, ⟨ho, by simp [hs]⟩, hp, _, hk, rfl⟩
        | succ k =>
          -- a further call follows the null pointer
          rw [readRaw, wp_bind]
          unfold wp
          rw [getRawData_released hk]
          exact trivial

/-- In a reliable world, the rows can be read. -/
theorem readRaw_returns {s : State DB} {b columns : Nat} {rows : List Chunk} {answer : PGresult} (hW : W.Reliable)
    (h : s.Copying b columns rows answer) {k : Nat} (hk : k ≤ rows.length) :
    ∃ data s', readRaw W b k s = .ret data s' := by
  induction k generalizing s rows with
  | zero => exact ⟨[], s, rfl⟩
  | succ k ih =>
    cases rows with
    | nil => cases hk
    | cons row rows =>
      obtain ⟨d, s₁, hs₁, -, h₁, -⟩ :=
        exists_ret (wp_mono (wp_getRawData_row h) (fun _ _ => id) fun _ _ hn => hn (hW.wait _))
      obtain ⟨data, s', hs'⟩ := ih h₁ (Nat.le_of_succ_le_succ hk)
      exact ⟨d :: data, s', by rw [readRaw, bind_ret hs₁, bind_ret hs']; rfl⟩

/-- However many rows the program has read, and whether it has seen the end of the data or not: when the guard of a
table reader has been released, the results of the COPY have not been read to the end, and no command is accepted. -/
theorem reader_not_drained {s₀ s s₁ : State DB} {o g : Addr} {b : Nat} {u : Statement DB} {columns : Nat}
    {rows : List Chunk} {completes : Bool} (hs₀ : Reachable W s₀) (hl : (Call.tableReader o g b u).Legal s₀)
    (hu : u.body = .copyTo columns rows completes) (hctor : tableReader W o g b u s₀ = .ret () s) {k : Nat}
    {data : List (Option Chunk)} (hread : readRaw W b k s = .ret data s₁) :
    (¬ s₁.Drained ∧ s₁.Refuses W) ∧
      ∃ s₂, destroyBulk W b s₁ = .ret () s₂ ∧ ¬ s₂.Drained ∧ s₂.Refuses W := by
  have hcopying := copying_of_tableReader hs₀ hl hu hctor
  obtain ⟨howned, hunread, hp, j, hj, hreader⟩ := wp_ret (wp_readRaw hcopying k) hread
  refine ⟨⟨hunread.2, State.refuses_of_unread hp hunread.2⟩, ?_⟩
  obtain ⟨_, s₂, hs₂, hpg⟩ := exists_ret (wp_destroyBulk_reader (W := W) howned hunread hj hreader)
  have hstream : s₂.conn.pg.stream ≠ [] := by
    rw [hpg]
    exact hunread.2
  exact ⟨s₂, hs₂, hstream, State.refuses_of_unread (by rw [hpg]; exact hp) hstream⟩

theorem reader_not_drained_half_read : ∃ s₁ : State Unit,
    (¬ s₁.Drained ∧ s₁.Refuses .calm) ∧
      ∃ s₂, destroyBulk .calm 0 s₁ = .ret () s₂ ∧ ¬ s₂.Drained ∧ s₂.Refuses .calm := by
  have hs₀ : Reachable .calm (State.directOnly () 0) := .directOnly () 0 trivial
  obtain ⟨s, hctor⟩ : ∃ s, tableReader .calm 0 1 0 ⟨"COPY t TO STDOUT", .copyTo 1 [[97, 10], [98, 10]] true⟩
    (State.directOnly () 0) = .ret () s := ⟨_, rfl⟩
  obtain ⟨data, s₁, hread⟩ := readRaw_returns World.calm_reliable (copying_of_tableReader hs₀ (by decide) rfl hctor)
    (k := 1) (by decide)
  exact ⟨s₁, reader_not_drained hs₀ (by decide) rfl hctor hread⟩

/-- A table with one row, which is read with the end of the data: the null pointer is left, and the next statement of
the transaction below is refused. -/
theorem reader_leaves_null : ∃ s : State Unit, Reachable .calm s ∧ s.bulk 0 = some ⟨true, none, none, 1, none⟩ ∧
    s.current = some 0 ∧ s.conn.pg.stream ≠ [] ∧
    (execute .calm 0 (.user ⟨"SELECT 1", .query some 1 1⟩) s).thrown = some (.connectionError .libpq) :=
  Reaches.of_trace .calm _
    [.direct 0, .tableReader 0 1 0 ⟨"COPY t TO STDOUT", .copyTo 1 [[97, 10]] true⟩, .getRow 0, .getRow 0] ()
    (by decide +kernel)

end TaoPQ
