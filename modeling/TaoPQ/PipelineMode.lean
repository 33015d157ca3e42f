import TaoPQ.Blocks
import TaoPQ.CopyOut

/-!
# Pipeline mode and the pipeline object

In a program that uses pipeline mode through pipelines only, the mode is on as long as there is a pipeline that was not
finished, which then is the current transaction (`pipeline_mode_iff`).  This needs two things of the program: it ends
objects in order, and it ends a pipeline only when all results were read (`Call.Careful`).  For `finish` makes the
transaction below the pipeline current again before it tries to leave pipeline mode.
-/

namespace TaoPQ

open Exec

variable {DB : Type}

/-! ### The connection in pipeline mode -/

def Item.isCopy : Item DB → Bool
  | .copyIn .. => true
  | .copyOut .. => true
  | _ => false

namespace PGconn

variable {W : World} {c c' : PGconn DB}

/-- In pipeline mode there is no COPY. -/
def Uncopied (c : PGconn DB) : Prop := c.pipeline = true → ∀ i ∈ c.stream, i.isCopy = false

private theorem Uncopied.of_fewer (h : c.Uncopied) (hp : c'.pipeline = true → c.pipeline = true)
    (hs : ∀ i ∈ c'.stream, i ∈ c.stream) : c'.Uncopied := fun hc i hi => h (hp hc) i (hs i hi)

private theorem Uncopied.append (h : c.Uncopied) {items : List (Item DB)} (hi : ∀ i ∈ items, i.isCopy = false)
    (hp : c'.pipeline = true → c.pipeline = true) (hs : c'.stream = c.stream ++ items) : c'.Uncopied := by
  intro hc i hm
  rw [hs] at hm
  exact (List.mem_append.1 hm).elim (h (hp hc) i) (hi i)

/-- A function of libpq for a COPY that is not there does nothing of interest. -/
private theorem Uncopied.of_copy (h : c.Uncopied) (hp : c'.pipeline = c.pipeline) {i : Item DB} (hi : i ∈ c.stream)
    (hcopy : i.isCopy = true) : c'.Uncopied := by
  intro hc
  have := h (hp ▸ hc) i hi
  simp [hcopy] at this

private theorem run_pipeline (byName : Bool) (cmd : Command DB) : (c.run W byName cmd).1.pipeline = c.pipeline := by
  cases cmd with
  | control k => rfl
  | deallocate name => rfl
  | user u =>
    simp only [run]
    split
    · rfl
    · cases u.body with
      | copyFrom load rows =>
        simp only [runUser]
        split <;> rfl
      | copyTo columns rows completes =>
        simp only [runUser]
        repeat' split
        all_goals rfl
      | _ => rfl

private theorem Uncopied.send (h : c.Uncopied) (byName : Bool) (cmd : Command DB) :
    (c.send W byName cmd).1.Uncopied := by
  have hrun := run_pipeline (W := W) (c := c) byName cmd
  unfold PGconn.send
  generalize c.run W byName cmd = answer at hrun ⊢
  obtain ⟨c', items⟩ := answer
  dsimp only at hrun ⊢
  repeat' split
  · exact h
  · exact h
  · exact h.append (by simp [Item.isCopy]) id rfl
  · exact h.append (by simp [Item.isCopy]) (fun hc => hrun ▸ hc) rfl
  · exact h
  · rename_i hp _
    exact fun hc => absurd (hrun ▸ hc) hp

private theorem Uncopied.sendPrepare (h : c.Uncopied) (name : String) (valid : Bool) :
    (c.sendPrepare name valid).1.Uncopied := by
  unfold PGconn.sendPrepare
  repeat' split
  · exact h
  · exact h
  · exact h.append (by simp [Item.isCopy]) id rfl
  · exact h.append (by simp [Item.isCopy]) id rfl
  · exact h
  · rename_i hp _ _ _ _ _
    exact fun hc => absurd hc hp

private theorem Uncopied.setSingleRowMode (h : c.Uncopied) : c.setSingleRowMode.1.Uncopied := by
  unfold PGconn.setSingleRowMode
  repeat' split
  all_goals first
    | exact h
    | skip
  rename_i x rest hs hx
  intro hc i hi
  simp only [List.mem_append, List.mem_replicate, List.mem_cons] at hi
  rcases hi with ⟨_, rfl⟩ | rfl | hi
  · rfl
  · rfl
  · exact h hc i (hs ▸ List.mem_cons_of_mem _ hi)

private theorem Uncopied.setChunkedRowsMode (h : c.Uncopied) (size : Int) :
    (c.setChunkedRowsMode size).1.Uncopied := by
  unfold PGconn.setChunkedRowsMode
  repeat' split
  all_goals first
    | exact h
    | skip
  all_goals
    rename_i x rest hs hx _
    intro hc i hi
    dsimp only at hi
    rw [List.mem_append, List.mem_cons, List.mem_map] at hi
    rcases hi with ⟨n, _, rfl⟩ | rfl | hi
    · rfl
    · rfl
    · exact h hc i (hs ▸ List.mem_cons_of_mem _ hi)

private theorem Uncopied.getResult (h : c.Uncopied) : c.getResult.1.Uncopied := by
  unfold PGconn.getResult
  repeat' split
  all_goals first
    | exact h
    | skip
  all_goals
    rename_i hs
    exact h.of_fewer id fun i hi => hs ▸ List.mem_cons_of_mem _ hi

private theorem Uncopied.cancel (h : c.Uncopied) : (c.cancel W).1.Uncopied := by
  unfold PGconn.cancel
  repeat' split
  all_goals first
    | exact h
    | skip
  rename_i hs _
  exact h.of_copy rfl (hs ▸ List.mem_cons_self) rfl

private theorem Uncopied.getCopyData (h : c.Uncopied) : c.getCopyData.1.Uncopied := by
  unfold PGconn.getCopyData
  repeat' split
  all_goals first
    | exact h
    | skip
  all_goals
    rename_i hs
    exact h.of_copy rfl (hs ▸ List.mem_cons_self) rfl

private theorem Uncopied.putCopyData (h : c.Uncopied) (data : Chunk) : (c.putCopyData data).1.Uncopied := by
  unfold PGconn.putCopyData
  repeat' split
  all_goals first
    | exact h
    | skip
  rename_i hs
  exact h.of_copy rfl (hs ▸ List.mem_cons_self) rfl

private theorem Uncopied.putCopyEnd (h : c.Uncopied) (m : Option String) : (c.putCopyEnd m).1.Uncopied := by
  unfold PGconn.putCopyEnd
  repeat' split
  · exact h
  · rename_i hs _ _
    exact h.of_copy rfl (hs ▸ List.mem_cons_self) rfl
  · rename_i hs _ _ _ _ _
    exact h.of_copy rfl (hs ▸ List.mem_cons_self) rfl
  · exact h

/-- COPY is not supported in pipeline mode. -/
theorem uncopied_preserved : Preserved W (Uncopied : PGconn DB → Prop) where
  tick _ h := h
  close _ h := h
  send _ byName cmd h := h.send byName cmd
  sendPrepare _ name valid h := h.sendPrepare name valid
  getResult _ h := h.getResult
  setSingleRowMode _ h := h.setSingleRowMode
  setChunkedRowsMode _ size h := h.setChunkedRowsMode size
  cancel _ h := h.cancel
  getCopyData _ h := h.getCopyData
  putCopyData _ data h := h.putCopyData data
  putCopyEnd _ m h := h.putCopyEnd m
  enterPipelineMode c h := by
    unfold enterPipelineMode
    repeat' split
    · exact h
    · exact h
    · exact h
    · rename_i hs
      intro _ i hi
      simp_all
  exitPipelineMode c h := by
    unfold exitPipelineMode
    repeat' split
    · exact h
    · exact h
    · exact fun hc => by simp at hc
  pipelineSync c h := by
    unfold pipelineSync
    split
    · exact h
    · exact h.append (by simp [Item.isCopy]) id rfl

theorem enterPipelineMode_on (c : PGconn DB) (h : c.enterPipelineMode.2 = true) :
    c.enterPipelineMode.1.pipeline = true := by
  unfold enterPipelineMode at h ⊢
  repeat' split
  all_goals simp_all

theorem enterPipelineMode_off (c : PGconn DB) (h : ¬ c.enterPipelineMode.2 = true) : c.enterPipelineMode.1 = c := by
  unfold enterPipelineMode at h ⊢
  repeat' split
  all_goals simp_all

/-- The result that is next announces no COPY. -/
theorem Uncopied.getResult_noCopy (h : c.Uncopied) (hproper : c.Proper) (hp : c.pipeline = true) :
    Connection.statusOf c.getResult.2 ≠ .copyIn ∧ Connection.statusOf c.getResult.2 ≠ .copyOut := by
  unfold PGconn.getResult
  repeat' split
  · simp [Connection.statusOf]
  · simp [Connection.statusOf]
  · rename_i r rest hs
    exact hproper r (hs ▸ List.mem_cons_self)
  · simp [Connection.statusOf]
  · rename_i hs
    have := h hp _ (hs ▸ List.mem_cons_self)
    simp [Item.isCopy] at this
  · rename_i hs
    have := h hp _ (hs ▸ List.mem_cons_self)
    simp [Item.isCopy] at this

end PGconn

namespace Connection

variable {W : World} {α : Type}

/-- Pipeline mode is as before, no block was opened or ended, and no COPY has come up. -/
def Tuned (c c' : Connection DB) : Prop :=
  (c.KeepsBlock c' ∧ c'.pg.pipeline = c.pg.pipeline) ∧ Keeps PGconn.Proper c c' ∧ Keeps PGconn.Uncopied c c'

instance : IsPreorder (Connection DB) Tuned where
  refl c := ⟨⟨refl (r := KeepsBlock) c, rfl⟩, id, id⟩
  trans c c' c'' h h' :=
    ⟨⟨IsTrans.trans (r := KeepsBlock) c c' c'' h.1.1 h'.1.1, h'.1.2.trans h.1.2⟩, fun hc => h'.2.1 (h.2.1 hc),
      fun hc => h'.2.2 (h.2.2 hc)⟩

private theorem libpq_tuned {β : Type} (call : LibpqCall) {f : PGconn DB → PGconn DB × β}
    (hb : ∀ c : PGconn DB, c.KeepsBlock (f c).1) (hp : ∀ c, (f c).1.pipeline = c.pipeline)
    (hproper : ∀ c : PGconn DB, c.Proper → (f c).1.Proper) (hu : ∀ c : PGconn DB, c.Uncopied → (f c).1.Uncopied) :
    Follows Tuned (libpq call f) :=
  fun c => ⟨⟨hb c.pg, hp c.pg⟩, hproper c.pg, hu c.pg⟩

private theorem libpqOr_tuned (call : LibpqCall) {f : PGconn DB → PGconn DB × Bool} (e : Exn)
    (hb : ∀ c : PGconn DB, c.KeepsBlock (f c).1) (hp : ∀ c, (f c).1.pipeline = c.pipeline)
    (hproper : ∀ c : PGconn DB, c.Proper → (f c).1.Proper) (hu : ∀ c : PGconn DB, c.Uncopied → (f c).1.Uncopied) :
    Follows Tuned (libpqOr call f e) :=
  .bind (libpq_tuned call hb hp hproper hu) fun _ => .ite (.pure _) (.throw e)

open PGconn

private theorem send_pipeline (byName : Bool) (cmd : Command DB) (c : PGconn DB) :
    (c.send W byName cmd).1.pipeline = c.pipeline := by
  have hrun := run_pipeline (W := W) (c := c) byName cmd
  unfold PGconn.send
  generalize c.run W byName cmd = answer at hrun ⊢
  obtain ⟨c', items⟩ := answer
  dsimp only at hrun ⊢
  repeat' split
  all_goals first
    | rfl
    | exact hrun

theorem sendParams_tuned {cmd : Command DB} (hcmd : cmd.KeepsBlock) : Follows Tuned (sendParams W cmd) :=
  .bind .get fun _ => libpqOr_tuned _ _ (fun _ => .send W _ hcmd) (send_pipeline _ cmd) (fun _ h => h.send _ cmd)
    fun _ h => h.send _ cmd

theorem reads_tuned : ReadsFollow W (@Tuned DB) where
  wait := by
    intro c
    unfold wp wait
    cases W.wait c.pg.clock with
    | ready => exact ⟨⟨.of_session rfl rfl rfl, rfl⟩, id, id⟩
    | timeout => exact ⟨⟨⟨fun _ => rfl, rfl, id⟩, rfl⟩, id, id⟩
    | broken => exact ⟨⟨⟨fun _ => rfl, rfl, id⟩, rfl⟩, id, id⟩
    | handler => exact ⟨⟨.of_session rfl rfl rfl, rfl⟩, id, id⟩
  handleNotifications := by
    intro c
    unfold wp handleNotifications
    split <;> exact ⟨⟨.of_session rfl rfl rfl, rfl⟩, id, id⟩
  libpqGetResult := libpq_tuned _ (fun _ => .getResult) (fun c => by
    unfold PGconn.getResult
    repeat' split
    all_goals rfl) (fun _ h => h.getResult) fun _ h => h.getResult
  libpqGetCopyData := libpq_tuned _ (fun _ => .getCopyData) (fun c => by
    unfold PGconn.getCopyData
    repeat' split
    all_goals rfl) (fun _ h => h.getCopyData) fun _ h => h.getCopyData
  libpqPutCopyEnd m := libpq_tuned _ (fun _ => .putCopyEnd m) (fun c => by
    unfold PGconn.putCopyEnd
    repeat' split
    all_goals rfl) (fun _ h => h.putCopyEnd m) fun _ h => h.putCopyEnd m
  cancel := libpqOr_tuned _ _ (fun _ => .cancel W) (fun c => by
    unfold PGconn.cancel
    repeat' split
    all_goals rfl) (fun _ h => h.cancel) fun _ h => h.cancel

theorem setSingleRowMode_tuned : Follows (@Tuned DB) setSingleRowMode :=
  libpqOr_tuned _ _ (fun c => by
    unfold PGconn.setSingleRowMode
    repeat' split
    all_goals exact .of_session rfl rfl rfl) (fun c => by
    unfold PGconn.setSingleRowMode
    repeat' split
    all_goals rfl) (fun _ h => h.setSingleRowMode) fun _ h => h.setSingleRowMode

theorem setChunkMode_tuned (rows : Int) : Follows (@Tuned DB) (setChunkMode rows) :=
  libpqOr_tuned _ _ (fun c => by
    unfold PGconn.setChunkedRowsMode
    repeat' split
    all_goals exact .of_session rfl rfl rfl) (fun c => by
    unfold PGconn.setChunkedRowsMode
    repeat' split
    all_goals rfl) (fun _ h => h.setChunkedRowsMode rows) fun _ h => h.setChunkedRowsMode rows

private theorem libpqPutCopyData_tuned (data : Chunk) :
    Follows (@Tuned DB) (libpqOr .putCopyData (fun c => c.putCopyData data) (.error .libpq)) :=
  libpqOr_tuned _ _ (fun c => by
    unfold PGconn.putCopyData
    repeat' split
    all_goals exact .of_session rfl rfl rfl) (fun c => by
    unfold PGconn.putCopyData
    repeat' split
    all_goals rfl) (fun _ h => h.putCopyData data) fun _ h => h.putCopyData data

theorem putCopyData_tuned (data : Chunk) : Follows (@Tuned DB) (putCopyData W data) :=
  .bind (reads_tuned.waitWhen _) fun _ => libpqPutCopyData_tuned (passed data)

theorem pipelineSync_tuned : Follows (@Tuned DB) pipelineSync :=
  libpqOr_tuned _ _ (fun c => by
    unfold PGconn.pipelineSync
    split <;> exact .of_session rfl rfl rfl) (fun c => by
    unfold PGconn.pipelineSync
    split <;> rfl) (fun _ h => h.pipelineSync) fun _ h => uncopied_preserved (W := .calm) |>.pipelineSync _ h

private theorem prepare_block (σ : Session DB) (name : String) (valid : Bool) :
    (σ.prepare name valid).1.block.isSome = σ.block.isSome := by
  unfold Session.prepare
  repeat' split
  all_goals first
    | rfl
    | exact σ.fail_block

theorem prepare_tuned (name : String) (valid : Bool) : Follows (@Tuned DB) (prepare W name valid) := by
  have hsend : Follows (@Tuned DB)
      (libpqOr .sendPrepare (PGconn.sendPrepare name valid) (.connectionError .libpq)) :=
    libpqOr_tuned _ _ (fun c => by
      have hblock := prepare_block c.session name valid
      unfold PGconn.sendPrepare
      generalize c.session.prepare name valid = answer at hblock ⊢
      obtain ⟨session, r⟩ := answer
      dsimp only at hblock ⊢
      repeat' split
      all_goals first
        | exact .of_session rfl rfl rfl
        | exact .of_session rfl rfl hblock) (fun c => by
      unfold PGconn.sendPrepare
      repeat' split
      all_goals rfl) (fun _ h => h.sendPrepare name valid) fun _ h => h.sendPrepare name valid
  have hname : Follows (@Tuned DB) (checkPreparedName name) := .ite (.pure _) (.throw _)
  have hmodify : Follows (@Tuned DB)
      (Exec.modify fun c => { c with prepared := if c.prepared.contains name then c.prepared else name :: c.prepared } :
        Exec (Connection DB) Exn Unit) := .modify fun c => ⟨⟨.refl _, rfl⟩, id, id⟩
  refine .bind hname fun _ => .bind hsend fun _ => .bind reads_tuned.getResult fun r => ?_
  cases statusOf r with
  | commandOk => exact .bind reads_tuned.consumeEmptyResult fun _ => hmodify
  | tuplesOk => exact .bind .undefined fun _ => hmodify
  | emptyQuery => exact .bind .undefined fun _ => hmodify
  | copyIn => exact .bind .undefined fun _ => hmodify
  | copyOut => exact .bind .undefined fun _ => hmodify
  | _ => exact .bind reads_tuned.consumeEmptyResult fun _ => .bind (OnConnection.throwSqlstate r) fun _ => hmodify

end Connection

/-! ### While there is a pipeline -/

namespace State

/-- A pipeline that was not finished. -/
def Unfinished (s : State DB) (p : Addr) : Prop := ∃ q, s.object p = some ⟨.pipeline (some q), true⟩

/-- The pipeline `p` is the only one that was not finished.  The program holds it, and nothing else refers to it. -/
structure Piping (s : State DB) (p : Addr) : Prop where
  registered : s.Registered
  owned : s.Owned
  unfinished : s.Unfinished p
  only : ∀ x, s.Unfinished x → x = p
  held : p ∈ s.held
  previous : ∀ x o, s.object x = some o → o.role.previous ≠ some p
  bulks : ∀ b k, s.bulk b = some k → k.previous ≠ some p ∧ k.transaction ≠ some p
  pipeline : s.conn.pg.pipeline = true
  proper : s.conn.pg.Proper
  uncopied : s.conn.pg.Uncopied

/-- Only the connection has changed, and that without leaving pipeline mode. -/
def Retuned (s s' : State DB) : Prop := ∃ c, s' = { s with conn := c } ∧ s.conn.Tuned c

/-- The pipeline is still there, and pipeline mode is still on. -/
def Stays (p : Addr) (s s' : State DB) : Prop := s'.Piping p ∧ s.conn.Tuned s'.conn

variable {W : World} {s s' s'' : State DB} {a p : Addr} {o : Object}

instance : IsPreorder (State DB) Retuned where
  refl s := ⟨s.conn, rfl, refl (r := Connection.Tuned) _⟩
  trans := by
    rintro s _ _ ⟨c, rfl, h⟩ ⟨c', rfl, h'⟩
    exact ⟨c', rfl, IsTrans.trans (r := Connection.Tuned) s.conn c c' h h'⟩

/-- Code that only talks to the connection. -/
theorem retuned {α : Type} {x : Prog DB α} (hk : KeepsHeap x) (hx : Follows (OnConnection Connection.Tuned) x) :
    Follows Retuned x := by
  intro s
  refine Leaves.mono (Leaves.and (hk s) (hx s)) fun s' hs' => ?_
  obtain ⟨⟨c, rfl⟩, hc⟩ := hs'
  exact ⟨c, rfl, hc⟩

theorem Stays.trans (h : Stays p s s') (h' : Stays p s' s'') : Stays p s s'' :=
  ⟨h'.1, IsTrans.trans (r := Connection.Tuned) _ _ _ h.2 h'.2⟩

namespace Piping

theorem stays (h : s.Piping p) : Stays p s s := ⟨h, refl (r := Connection.Tuned) _⟩

theorem next (h : s.Piping p) : (s.next p).isSome := by
  obtain ⟨q, hq⟩ := h.unfinished
  rw [next_of_object hq]
  rfl

theorem current (h : s.Piping p) : s.current = some p := by
  refine h.registered.eq_top h.next fun x hx => ?_
  rcases ho : s.object x with _ | o
  · simp [State.next, ho] at hx
  · rw [next_of_object ho] at hx
    exact h.previous x o ho (Object.link_previous hx)

theorem conn (h : s.Piping p) {c : Connection DB} (hc : s.conn.Tuned c) : Stays p s { s with conn := c } :=
  ⟨⟨h.registered, (h.owned.conn c).1, h.unfinished, h.only, h.held, h.previous, h.bulks, hc.1.2.trans h.pipeline,
    hc.2.1 h.proper, hc.2.2 h.uncopied⟩, hc⟩

theorem leaves {α : Type} {x : Prog DB α} (h : s.Piping p) (hk : KeepsHeap x)
    (hx : Follows (OnConnection Connection.Tuned) x) : Leaves x (Stays p s) s := by
  refine Follows.leaves (retuned hk hx) fun s' hs' => ?_
  obtain ⟨c, rfl, hc⟩ := hs'
  exact h.conn hc

/-- An object that is off the stack and has no owner goes. -/
theorem erase (h : s.Piping p) (ha : ¬ s.Owns a) (hn : s.next a = none) :
    Stays p s { s with objects := s.objects.erase a } := by
  have hne : p ≠ a := by
    rintro rfl
    exact ha (.inl h.held)
  have hobject {x : Addr} {o : Object} (hx : ({ s with objects := s.objects.erase a } : State DB).object x = some o) :
      s.object x = some o := by
    rw [object_erase] at hx
    split at hx
    · cases hx
    · exact hx
  refine ⟨⟨(h.registered.without hn).erase, (h.owned.erase ha).1, ?_, ?_, h.held, ?_, h.bulks, h.pipeline, h.proper,
    h.uncopied⟩, refl (r := Connection.Tuned) _⟩
  · obtain ⟨q, hq⟩ := h.unfinished
    exact ⟨q, by rw [object_erase, if_neg hne, hq]⟩
  · rintro x ⟨q, hq⟩
    exact h.only x ⟨q, hobject hq⟩
  · exact fun x o hx => h.previous x o (hobject hx)

theorem congr (h : s.Piping p) (objects : AList (fun _ : Addr => Object))
    (hobject : ∀ x, ({ s with objects := objects } : State DB).object x = s.object x) :
    Stays p s { s with objects := objects } := by
  have hnext : ({ s with objects := objects } : State DB).next = s.next := by
    funext x
    rw [State.next, State.next, hobject]
  refine ⟨⟨?_, ⟨fun x hx => ?_, fun x o hx => ?_⟩, ?_, fun x hx => ?_, h.held, fun x o hx => ?_, h.bulks, h.pipeline,
    h.proper, h.uncopied⟩, refl (r := Connection.Tuned) _⟩
  · rw [Registered, hnext]
    exact h.registered
  · rw [hobject]
    simp only [Owns, hobject] at hx
    exact h.owned.alive x hx
  · rw [hobject] at hx
    exact h.owned.pipelines x o hx
  · simpa only [Unfinished, hobject] using h.unfinished
  · simp only [Unfinished, hobject] at hx
    exact h.only x hx
  · rw [hobject] at hx
    exact h.previous x o hx

/-- A table reader or writer changes, or is new. -/
theorem putBulk (h : s.Piping p) (b : Nat) {k : Bulk}
    (hk : ∀ q, k.previous = some q ∨ k.transaction = some q → (s.object q).isSome ∧ q ≠ p) :
    Stays p s { s with bulks := s.bulks.insert b k } := by
  refine ⟨⟨h.registered, h.owned.putBulk fun q hq => (hk q hq).1, h.unfinished, h.only, h.held, h.previous, ?_,
    h.pipeline, h.proper, h.uncopied⟩, refl (r := Connection.Tuned) _⟩
  intro b' k' hb
  rw [bulk_insert] at hb
  split at hb
  · obtain rfl := Option.some.inj hb
    exact ⟨fun hq => (hk p (.inl hq)).2 rfl, fun hq => (hk p (.inr hq)).2 rfl⟩
  · exact h.bulks b' k' hb

theorem changeBulk (h : s.Piping p) {b : Nat} {k : Bulk} (hk : s.bulk b = some k) (k' : Bulk)
    (hk' : ∀ q, k'.previous = some q ∨ k'.transaction = some q → k.previous = some q ∨ k.transaction = some q) :
    Stays p s { s with bulks := s.bulks.insert b k' } := by
  refine h.putBulk b fun q hq => ?_
  have hq := hk' q hq
  refine ⟨h.owned.alive q (.inr (.inr ⟨b, k, hk, hq⟩)), ?_⟩
  rintro rfl
  exact hq.elim (h.bulks b k hk).1 (h.bulks b k hk).2

theorem eraseBulk (h : s.Piping p) (b : Nat) : Stays p s { s with bulks := s.bulks.erase b } := by
  refine ⟨⟨h.registered, (h.owned.eraseBulk b).1, h.unfinished, h.only, h.held, h.previous, ?_, h.pipeline, h.proper,
    h.uncopied⟩, refl (r := Connection.Tuned) _⟩
  intro b' k hk
  refine h.bulks b' k ?_
  by_cases hb : b' = b
  · subst hb
    simp [bulk] at hk
  · simpa [bulk, AList.lookup_erase_ne hb] using hk

theorem hold (h : s.Piping p) (ho : s.object a = some o) : Stays p s { s with held := a :: s.held } :=
  ⟨⟨h.registered, h.owned.hold ho, h.unfinished, h.only, List.mem_cons_of_mem _ h.held, h.previous, h.bulks, h.pipeline,
    h.proper, h.uncopied⟩, refl (r := Connection.Tuned) _⟩

theorem drop (h : s.Piping p) (hp : p ∈ s.held.erase a) : Stays p s { s with held := s.held.erase a } :=
  ⟨⟨h.registered, (h.owned.drop a).1, h.unfinished, h.only, hp, h.previous, h.bulks, h.pipeline, h.proper, h.uncopied⟩,
    refl (r := Connection.Tuned) _⟩

end Piping

end State

section Piping

variable {W : World} {s s' : State DB} {a o p : Addr}

/-- The destructor of an object that is off the stack does nothing. -/
private theorem destructor_ended {release : Addr → Prog DB Unit} (hn : s.next a = none) :
    wp True (destructor W release a) (fun _ s' => s' = s) (fun _ _ => False) s := by
  simp only [destructor, wp_bind, wp_deref, implies_true, and_true]
  intro o ho
  rw [State.next_of_object ho] at hn
  have hend (h : o.role.isPipeline = false) : o.connected = false := by
    rw [Object.link_transaction h] at hn
    by_contra hc
    simp [hc] at hn
  have hderegister (h : o.connected = false) : wp True (deregister a) (fun _ s' => s' = s) (fun _ _ => False) s := by
    simp [deregister, ho, h]
  have hdestroy (h : o.connected = false) :
      wp True (do attemptRollbackInDtor W a; deregister a) (fun _ s' => s' = s) (fun _ _ => False) s := by
    simp only [attemptRollbackInDtor, wp_bind, wp_deref, ho, Option.some.injEq, forall_eq', h, Bool.false_eq_true,
      ↓reduceIte, wp_pure, reduceCtorEq, false_implies, and_true]
    exact hderegister h
  cases hrole : o.role with
  | autocommitTransaction => exact hderegister (hend (by rw [hrole]; rfl))
  | topLevelTransaction => exact hdestroy (hend (by rw [hrole]; rfl))
  | topLevelSubtransaction q => exact hdestroy (hend (by rw [hrole]; rfl))
  | nestedSubtransaction q => exact hdestroy (hend (by rw [hrole]; rfl))
  | transactionGuard q => exact hderegister (hend (by rw [hrole]; rfl))
  | pipeline q =>
    cases q with
    | some q => simp [Object.link, hrole] at hn
    | none => simp [finishWith, ho, hrole]

/-- Only objects that are off the stack are destroyed, since the top of the stack is the pipeline. -/
private theorem releaseN_stays (n : Nat) (a : Addr) (h : s.Piping p) :
    Leaves (releaseN W n a) (State.Stays p s) s := by
  induction n generalizing a s with
  | zero => exact h.stays
  | succ n ih =>
    simp only [releaseN, wp_bind, wp_get, wp_ite, wp_deref, wp_eraseObject, wp_pure, implies_true, and_true]
    refine ⟨fun hu => ?_, fun _ => h.stays⟩
    have hu := (s.unowned_eq_true a).1 hu
    have hn : s.next a = none := by
      by_contra hn
      have ha := h.registered.top_of_unowned hu (Option.isSome_iff_ne_none.2 hn)
      rw [h.current] at ha
      obtain rfl := Option.some.inj ha
      exact hu (.inl h.held)
    refine wp_mono (destructor_ended hn) (fun _ s' hs' o _ => ?_) (fun _ _ => False.elim)
    subst hs'
    have herased := h.erase hu hn
    cases o.role.previous with
    | none => exact herased
    | some q => exact (ih q herased.1).mono fun _ => herased.trans

private theorem release_stays (a : Addr) (h : s.Piping p) : Leaves (release W a) (State.Stays p s) s := by
  simp only [release, wp_bind, wp_get]
  exact releaseN_stays _ a h

private theorem resetTransaction_stays (b : Nat) (h : s.Piping p) :
    Leaves (resetTransaction W b) (State.Stays p s) s := by
  simp only [resetTransaction, wp_bind, wp_derefBulk, wp_putBulk, implies_true, and_true]
  intro k hk
  have hput := h.changeBulk hk { k with transaction := none } fun q hq => hq.imp_right fun hn => by cases hn
  cases k.transaction with
  | none => exact hput
  | some g => exact (release_stays g hput.1).mono fun _ => hput.trans

private theorem resetPrevious_stays (b : Nat) (h : s.Piping p) : Leaves (resetPrevious W b) (State.Stays p s) s := by
  simp only [resetPrevious, wp_bind, wp_derefBulk, wp_putBulk, implies_true, and_true]
  intro k hk
  have hput := h.changeBulk hk { k with previous := none } fun q hq => hq.imp_left fun hn => by cases hn
  cases k.previous with
  | none => exact hput
  | some o => exact (release_stays o hput.1).mono fun _ => hput.trans

private theorem resetBoth_stays (b : Nat) (h : s.Piping p) :
    wp True (resetTransaction W b) (fun _ s' => Leaves (resetPrevious W b) (State.Stays p s) s')
      (fun _ => State.Stays p s) s :=
  wp_mono (resetTransaction_stays b h)
    (fun _ _ h₁ => (resetPrevious_stays b h₁.1).mono fun _ => h₁.trans) (fun _ _ => id)

private theorem destroyMembers_stays (b : Nat) (h : s.Piping p) : Leaves (destroyMembers W b) (State.Stays p s) s := by
  simp only [destroyMembers, wp_bind, wp_modify]
  exact wp_mono (resetBoth_stays b h)
    (fun _ _ h₁ => wp_mono h₁ (fun _ _ h₂ => h₂.trans (h₂.1.eraseBulk b)) (fun _ _ => id)) (fun _ _ => id)

private theorem getResult_tuned (a : Addr) :
    Follows (OnConnection Connection.Tuned) (getResult W a : Prog DB PGresult) :=
  .bind (OnConnection.checkCurrentTransaction a) fun _ => OnConnection.onConnection Connection.reads_tuned.fetchResult

private theorem getRawData_stays (b : Nat) (h : s.Piping p) : Leaves (getRawData W b) (State.Stays p s) s := by
  simp only [getRawData, wp_bind, wp_derefBulk, wp_putBulk, implies_true, and_true]
  refine wp_mono (h.leaves (.guardOf b) (OnConnection.guardOf b)) (fun g s₁ h₁ => ?_) (fun _ _ => id)
  refine wp_mono (h₁.1.leaves (.onConnection _) (OnConnection.onConnection Connection.reads_tuned.getCopyData))
    (fun data s₂ h₂ => ?_) (fun _ _ => h₁.trans)
  intro k hk
  have hput := (h₁.trans h₂).trans (h₂.1.changeBulk hk { k with buffer := data } fun _ => id)
  cases data with
  | some row => exact hput
  | none =>
    simp only [wp_bind]
    refine wp_mono (hput.1.leaves (.onConnection _) (OnConnection.onConnection Connection.reads_tuned.getResult))
      (fun r s₃ h₃ => ?_) (fun _ _ => hput.trans)
    cases r with
    | none =>
      exact (h₃.1.leaves (.onConnection _) (OnConnection.onConnection (OnConnection.throwSqlstate none))).mono
        fun _ h₄ => (hput.trans h₃).trans h₄
    | some r =>
      simp only [wp_bind, wp_pure]
      refine wp_mono (h₃.1.leaves (.onConnection _) (OnConnection.onConnection (Connection.ReadsFollow.result r)))
        (fun _ s₄ h₄ => ?_) (fun _ _ h₄ => (hput.trans h₃).trans h₄)
      have hread := (hput.trans h₃).trans h₄
      exact wp_mono (resetBoth_stays b h₄.1) (fun _ _ h₅ => h₅.mono fun _ => hread.trans) (fun _ _ => hread.trans)

private theorem writerCommit_stays (b : Nat) (h : s.Piping p) : Leaves (writerCommit W b) (State.Stays p s) s := by
  simp only [writerCommit, wp_bind, wp_pure]
  refine wp_mono (h.leaves (.guardOf b) (OnConnection.guardOf b)) (fun g s₁ h₁ => ?_) (fun _ _ => id)
  refine wp_mono (h₁.1.leaves (.onConnection _) (OnConnection.onConnection (Connection.reads_tuned.putCopyEnd none)))
    (fun _ s₂ h₂ => ?_) (fun _ _ => h₁.trans)
  have h₂ := h₁.trans h₂
  refine wp_mono (h₂.1.leaves (.getResult W g) (getResult_tuned g)) (fun r s₃ h₃ => ?_) (fun _ _ => h₂.trans)
  have h₃ := h₂.trans h₃
  refine wp_mono (h₃.1.leaves (.rowsAffected r) (OnConnection.rowsAffected r)) (fun n s₄ h₄ => ?_) (fun _ _ => h₃.trans)
  have h₄ := h₃.trans h₄
  exact wp_mono (resetBoth_stays b h₄.1) (fun _ _ h₅ => h₅.mono fun _ => h₄.trans) (fun _ _ => h₄.trans)

private theorem destroyBulk_stays (b : Nat) (h : s.Piping p) : Leaves (destroyBulk W b) (State.Stays p s) s := by
  simp only [destroyBulk, wp_bind, wp_derefBulk, implies_true, and_true]
  intro k _
  split
  · simp only [wp_catchAll, wp_bind, wp_pure]
    have hdestroy (s' : State DB) (h' : State.Stays p s s') : Leaves (destroyMembers W b) (State.Stays p s) s' :=
      (destroyMembers_stays b h'.1).mono fun _ => h'.trans
    exact wp_mono (h.leaves (.getResult W _) (getResult_tuned _)) (fun _ => hdestroy) (fun _ => hdestroy)
  · exact destroyMembers_stays b h

/-- What is read next in pipeline mode announces no COPY. -/
private theorem wp_getResult_noCopy {c : Connection DB} (hp : c.pg.pipeline = true) (hproper : c.pg.Proper)
    (hu : c.pg.Uncopied) :
    wp True (Connection.getResult W)
      (fun r c' => (Connection.statusOf r ≠ .copyIn ∧ Connection.statusOf r ≠ .copyOut) ∧ c.Tuned c') (fun _ => c.Tuned)
      c := by
  have hkeeps := Connection.reads_tuned.getResult (W := W) c
  simp only [Connection.getResult, wp_bind, wp_libpq, wp_pure] at hkeeps ⊢
  refine wp_mono (wp_and hkeeps ((Connection.reads_tuned.waitWhen _ c))) ?_ (fun _ _ h => h.1)
  rintro _ c₁ ⟨hkeeps, h₁⟩
  have hnext := (h₁.2.2 hu).getResult_noCopy (h₁.2.1 hproper) (h₁.1.2.trans hp)
  exact wp_mono hkeeps (fun _ _ h₂ => ⟨hnext, h₂⟩) (fun _ _ => id)

/-- Neither a table reader nor a table writer can be constructed in pipeline mode. -/
private theorem checkResult_throws (reader : Bool) (b : Nat) (hp : s.conn.pg.pipeline = true)
    (hproper : s.conn.pg.Proper) (hu : s.conn.pg.Uncopied) :
    wp True (if reader then readerCheckResult W b else writerCheckResult W b) (fun _ _ => False)
      (fun _ => State.Retuned s) s := by
  have hread : Follows State.Retuned (onConnection (Connection.consumeEmptyResult W) : Prog DB Unit) :=
    State.retuned (.onConnection _) (OnConnection.onConnection Connection.reads_tuned.consumeEmptyResult)
  have hthen {s' : State DB} (h' : State.Retuned s s') {s'' : State DB} : State.Retuned s' s'' → State.Retuned s s'' :=
    IsTrans.trans (r := State.Retuned) s s' s'' h'
  have hconsume {s' : State DB} (h' : State.Retuned s s') (e : Exn) :
      wp True (do onConnection (Connection.consumeEmptyResult W); (Exec.throw e : Prog DB Unit)) (fun _ _ => False)
        (fun _ => State.Retuned s) s' := by
    rw [wp_bind]
    exact wp_mono (hread s') (fun _ _ => hthen h') (fun _ _ => hthen h')
  have hsqlstate {s' : State DB} (h' : State.Retuned s s') (r : Option PGresult) :
      wp True (do
        onConnection (Connection.consumeEmptyResult W)
        (onConnection (Connection.throwSqlstate r) : Prog DB Unit)) (fun _ _ => False) (fun _ => State.Retuned s) s' := by
    rw [wp_bind]
    refine wp_mono (hread s') (fun _ s'' h'' => ?_) (fun _ _ => hthen h')
    cases r <;> exact hthen h' h''
  have hguard {Q : Addr → State DB → Prop} {E : Exn → State DB → Prop} (hQ : ∀ g, Q g s) :
      wp True (guardOf b) Q E s := by
    simp only [guardOf, wp_bind, wp_derefBulk, wp_pure, implies_true, and_true]
    intro k _
    cases k.transaction with
    | none => exact trivial
    | some g =>
      simp only [wp_derefPointer_some, implies_true, and_true]
      exact fun _ => wp_derefConnection g fun _ _ _ => hQ g
  have hnext {f : Option PGresult → Prog DB Unit}
      (hf : ∀ r c, Connection.statusOf r ≠ .copyIn ∧ Connection.statusOf r ≠ .copyOut → s.conn.Tuned c →
        wp True (f r) (fun _ _ => False) (fun _ => State.Retuned s) { s with conn := c }) :
      wp True (onConnection (Connection.getResult W) >>= f) (fun _ _ => False) (fun _ => State.Retuned s) s := by
    rw [wp_bind, wp_onConnection]
    exact wp_mono (wp_getResult_noCopy hp hproper hu) (fun r c hr => hf r c hr.1 hr.2) (fun _ c hc => ⟨c, rfl, hc⟩)
  cases reader with
  | true =>
    rw [if_pos rfl, readerCheckResult, wp_bind]
    refine hguard fun g => hnext fun r c hr hc => ?_
    have hc : State.Retuned s { s with conn := c } := ⟨c, rfl, hc⟩
    cases hstatus : Connection.statusOf r with
    | copyIn => exact absurd hstatus hr.1
    | copyOut => exact absurd hstatus hr.2
    | commandOk => exact hconsume hc _
    | tuplesOk => exact hconsume hc _
    | emptyQuery => exact hconsume hc _
    | _ => exact hsqlstate hc r
  | false =>
    rw [if_neg (by decide), writerCheckResult, wp_bind]
    refine hguard fun g => hnext fun r c hr hc => ?_
    have hc : State.Retuned s { s with conn := c } := ⟨c, rfl, hc⟩
    cases hstatus : Connection.statusOf r with
    | copyIn => exact absurd hstatus hr.1
    | copyOut => exact absurd hstatus hr.2
    | commandOk => exact hconsume hc _
    | tuplesOk => exact hconsume hc _
    | emptyQuery => exact hconsume hc _
    | _ => exact hsqlstate hc r

/-- Nobody owns what was not there before. -/
private theorem ne_of_owns {g : Addr} (h : s.Piping p) (hg : s.free g) {x : Addr} (hx : s.Owns x) : x ≠ g := by
  rintro rfl
  have halive := h.owned.alive x hx
  rw [hg] at halive
  cases halive

/-- A guard above the pipeline, without the table reader or writer that it was made for, has no owner. -/
private theorem unowned_guard {g b : Nat} {k : Bulk} {c : Connection DB} (h : s.Piping p) (hg : s.free g)
    (hprevious : ∀ q, k.previous = some q → (s.object q).isSome ∧ q ≠ p) :
    ({ s with
      conn := c, objects := s.objects.insert g ⟨.transactionGuard p, true⟩, current := some g,
      bulks := s.bulks.insert b { k with transaction := none } } : State DB).unowned g = true := by
  refine (State.unowned_eq_true _ g).2 ?_
  rintro (hx | ⟨x, o, hx, hp⟩ | ⟨b', k', hb, hp⟩)
  · exact ne_of_owns h hg (.inl hx) rfl
  · have hx := (State.object_insert s g _ x).symm.trans hx
    split at hx
    · obtain rfl := Option.some.inj hx
      exact ne_of_owns h hg (.inl h.held) (Option.some.inj hp)
    · exact ne_of_owns h hg (.inr (.inl ⟨x, o, hx, hp⟩)) rfl
  · have hb := (State.bulk_insert s b _ b').symm.trans hb
    split at hb
    · obtain rfl := Option.some.inj hb
      have hp := hprevious g (hp.resolve_right fun hn => by cases hn)
      rw [hg] at hp
      cases hp.1
    · exact ne_of_owns h hg (.inr (.inr ⟨b', k', hb, hp⟩)) rfl

/-- The guard of a table reader or writer that could not be constructed leaves the stack again. -/
private theorem destroyMembers_guard {g b : Nat} {k : Bulk} {c : Connection DB} (h : s.Piping p) (hg : s.free g)
    (hk : k.transaction = some g) (hprevious : ∀ q, k.previous = some q → (s.object q).isSome ∧ q ≠ p)
    (hc : s.conn.Tuned c) :
    Leaves (destroyMembers W b) (State.Stays p s)
      { s with
        conn := c, objects := s.objects.insert g ⟨.transactionGuard p, true⟩, current := some g,
        bulks := s.bulks.insert b k } := by
  -- without the guard, and without the reference to it, all is as before
  have hback : State.Stays p s { s with
      conn := c, objects := (s.objects.insert g ⟨.transactionGuard p, true⟩).erase g, current := some p,
      bulks := s.bulks.insert b { k with transaction := none } } := by
    have hconn := h.conn hc
    have hbulk := hconn.trans (hconn.1.putBulk b (k := { k with transaction := none }) fun q hq =>
      hprevious q (hq.resolve_right fun hn => by cases hn))
    have hobjects := hbulk.trans (hbulk.1.congr
      ((s.objects.insert g ⟨.transactionGuard p, true⟩).erase g) fun x => ?_)
    · rw [← h.current]
      exact hobjects
    · by_cases hx : x = g
      · subst hx
        simpa [State.object] using hg.symm
      · simp [State.object, AList.lookup_erase_ne hx, AList.lookup_insert_ne hx]
  have hrest {s' : State DB} (h' : State.Stays p s s') :
      Leaves (do resetPrevious W b; Exec.modify fun s => { s with bulks := s.bulks.erase b }) (State.Stays p s) s' := by
    rw [leaves_bind]
    exact wp_mono (resetPrevious_stays b h'.1) (fun _ _ h₁ => h'.trans (h₁.trans (h₁.1.eraseBulk b)))
      (fun _ _ => h'.trans)
  simp only [destroyMembers, resetTransaction, wp_bind, wp_derefBulk, State.bulk, AList.lookup_insert, Option.some.injEq,
    forall_eq', hk, wp_putBulk, AList.insert_insert, reduceCtorEq, false_implies, and_true, release, wp_get]
  have hunowned := unowned_guard (b := b) (k := k) (c := c) h hg hprevious
  obtain ⟨t, ht⟩ : ∃ t : State DB, t = { s with
      conn := c, objects := s.objects.insert g ⟨.transactionGuard p, true⟩, current := some g,
      bulks := s.bulks.insert b { k with transaction := none } } := ⟨_, rfl⟩
  rw [← ht] at hunowned ⊢
  cases hlength : (s.objects.insert g ⟨.transactionGuard p, true⟩).keys.length with
  | zero =>
    rw [AList.keys_insert] at hlength
    cases hlength
  | succ n =>
    have hguard : t.objects.lookup g = some ⟨.transactionGuard p, true⟩ := by
      rw [ht]
      exact AList.lookup_insert _
    simp only [releaseN, wp_bind, wp_get, hunowned, ↓reduceIte, destructor, deregister, wp_deref, State.object, hguard,
      wp_setCurrent, Option.some.injEq, forall_eq', reduceCtorEq, false_implies, and_true, wp_eraseObject, Role.previous]
    rw [ht]
    refine wp_mono (releaseN_stays n p hback.1) (fun _ s₁ h₁ => ?_) (fun _ _ => hback.trans)
    exact (leaves_bind _ _).1 (hrest (hback.trans h₁))

private theorem newBulk_stays (reader : Bool) {o g : Addr} (b : Nat) (u : Statement DB) (h : s.Piping p)
    (ho : s.holdsTransaction o) (hg : s.free g) : Leaves (newBulk W reader o g b u) (State.Stays p s) s := by
  have hop : o ≠ p := by
    rintro rfl
    obtain ⟨q, hq⟩ := h.unfinished
    cases ho.2 _ hq
  have ho' : (s.object o).isSome := h.owned.alive o (.inl ho.1)
  simp only [newBulk, newTransactionGuard, newSubtransactionBase, wp_bind, wp_get]
  refine wp_derefConnection o fun _ _ _ => ?_
  simp only [h.current, wp_derefPointer_some, wp_putObject, wp_setCurrent, wp_putBulk, wp_catchAll, wp_throw, wp_bind,
    implies_true, and_true]
  intro _
  have hdestroy (c : Connection DB) (hc : s.conn.Tuned c) := destroyMembers_guard (W := W) (b := b)
    (k := ⟨reader, some o, some g, 0, none⟩) h hg rfl (fun q hq => Option.some.inj hq ▸ ⟨ho', hop⟩) hc
  have hsend : Follows State.Retuned (send W g (.user u)) :=
    State.retuned (.send W g _) (.bind (OnConnection.checkCurrentTransaction g) fun _ =>
      OnConnection.onConnection (Connection.sendParams_tuned trivial))
  refine wp_mono (hsend _) ?_ ?_
  · rintro _ _ ⟨c, rfl, hc⟩
    refine wp_mono (checkResult_throws reader b (hc.1.2.trans h.pipeline) (hc.2.1 h.proper) (hc.2.2 h.uncopied))
      (fun _ _ => False.elim) ?_
    rintro _ _ ⟨c', rfl, hc'⟩
    exact hdestroy c' (IsTrans.trans (r := Connection.Tuned) s.conn c c' hc hc')
  · rintro _ _ ⟨c, rfl, hc⟩
    exact hdestroy c hc

/-- A new transaction is refused. -/
private theorem newTransactionBase_refused (h : s.Piping p) (r : Role) {Q : Unit → State DB → Prop}
    {E : Exn → State DB → Prop} (hE : ∀ e, E e s) : wp True (newTransactionBase a r) Q E s := by
  simp only [newTransactionBase, wp_bind, wp_get, h.current, Option.isSome_some, ↓reduceIte, wp_throw]
  exact hE _

/-- A transaction that is used is out of order. -/
private theorem check_refused (h : s.Piping p) (ho : s.holdsTransaction o) {Q : Unit → State DB → Prop}
    {E : Exn → State DB → Prop} (hE : ∀ e, E e s) : wp True (checkCurrentTransaction o) Q E s := by
  rw [wp_checkCurrentTransaction]
  refine ⟨fun x hx => ⟨fun hc => ?_, fun _ => hE _⟩, fun _ => trivial⟩
  rw [h.current] at hc
  obtain rfl := Option.some.inj hc.2
  obtain ⟨q, hq⟩ := h.unfinished
  cases ho.2 _ hq

end Piping

/-! ### While there is none -/

/-- No pipeline has come into being. -/
def Unpiped (s s' : State DB) : Prop := ∀ p, s'.Unfinished p → s.Unfinished p

instance : IsPreorder (State DB) Unpiped where
  refl _ _ := id
  trans _ _ _ h h' := fun p hp => h p (h' p hp)

namespace Unpiped

variable {α : Type}

private theorem keepsHeap {x : Prog DB α} (h : KeepsHeap x) : Follows Unpiped x :=
  Follows.mono h fun _ _ ⟨_, hc⟩ _ hp => by
    subst hc
    exact hp

private theorem modify {f : State DB → State DB} (h : ∀ s, (f s).objects = s.objects) :
    Follows Unpiped (Exec.modify f : Prog DB Unit) := fun s p hp => by
  simpa only [State.Unfinished, State.object, h s] using hp

private theorem deref (a : Addr) : Follows Unpiped (TaoPQ.deref a : Prog DB Object) := keepsHeap (.deref a)

private theorem derefBulk (b : Nat) : Follows Unpiped (TaoPQ.derefBulk b : Prog DB Bulk) := by
  intro s
  rw [wp_derefBulk]
  exact ⟨fun _ _ _ => id, fun _ => trivial⟩

private theorem derefPointer (q : Option Addr) : Follows Unpiped (TaoPQ.derefPointer q : Prog DB Addr) := by
  cases q with
  | none => exact .undefined
  | some q => exact .bind (deref q) fun _ => .pure _

private theorem putObject (a : Addr) {o : Object} (ho : ∀ q, o ≠ ⟨.pipeline (some q), true⟩) :
    Follows Unpiped (TaoPQ.putObject a o : Prog DB Unit) := by
  rintro s p ⟨q, hq⟩
  rw [State.object_insert] at hq
  split at hq
  · exact absurd (Option.some.inj hq) (ho q)
  · exact ⟨q, hq⟩

private theorem eraseObject (a : Addr) : Follows Unpiped (TaoPQ.eraseObject a : Prog DB Unit) := by
  rintro s p ⟨q, hq⟩
  rw [State.object_erase] at hq
  split at hq
  · cases hq
  · exact ⟨q, hq⟩

private theorem vReset (a : Addr) : Follows Unpiped (TaoPQ.vReset a : Prog DB Unit) :=
  .bind (keepsHeap (.derefConnection a)) fun _ => .bind (deref a) fun _ => .bind (modify fun _ => rfl) fun _ =>
    putObject a fun q hq => by simpa using congrArg Object.connected hq

private theorem deregister (a : Addr) : Follows Unpiped (TaoPQ.deregister a : Prog DB Unit) :=
  .bind (deref a) fun _ => .ite (modify fun _ => rfl) (.pure _)

private theorem endWith (a : Addr) {x : Prog DB Unit} (hx : KeepsHeap x) : Follows Unpiped (TaoPQ.endWith a x) :=
  .bind (.catchAll (keepsHeap (.bind (.checkCurrentTransaction a) fun _ => hx)) fun _ => .bind (vReset a) fun _ =>
    .throw _) fun _ => vReset a

variable (W : World)

private theorem attemptRollbackInDtor (a : Addr) : Follows Unpiped (TaoPQ.attemptRollbackInDtor W a : Prog DB Unit) :=
  .bind (deref a) fun _ => .ite
    (.bind (keepsHeap (.onConnection _)) fun _ => .ite
      (.bind (.catchAll (keepsHeap (.bind (.checkCurrentTransaction a) fun _ => .vRollback W a))
        fun _ => keepsHeap (.derefConnection a)) fun _ => vReset a) (.pure _))
    (.pure _)

private theorem finishWith {release : Addr → Prog DB Unit} (hr : ∀ q, Follows Unpiped (release q)) (a : Addr) :
    Follows Unpiped (TaoPQ.finishWith release a) :=
  .bind (deref a) fun o => by
    split
    · exact .bind (modify fun _ => rfl) fun _ => .bind (putObject a fun q hq => by cases hq) fun _ =>
        .andFinally (keepsHeap (.onConnection _)) (hr _)
    · exact .pure _

private theorem destructor {release : Addr → Prog DB Unit} (hr : ∀ q, Follows Unpiped (release q)) (a : Addr) :
    Follows Unpiped (TaoPQ.destructor W release a) :=
  .bind (deref a) fun o => by
    cases o.role with
    | autocommitTransaction => exact deregister a
    | topLevelTransaction => exact .bind (attemptRollbackInDtor W a) fun _ => deregister a
    | topLevelSubtransaction q => exact .bind (attemptRollbackInDtor W a) fun _ => deregister a
    | nestedSubtransaction q => exact .bind (attemptRollbackInDtor W a) fun _ => deregister a
    | transactionGuard q => exact deregister a
    | pipeline q => exact .catchAll (finishWith hr a) fun _ => .pure _

private theorem releaseN (n : Nat) (a : Addr) : Follows Unpiped (TaoPQ.releaseN W n a : Prog DB Unit) := by
  induction n generalizing a with
  | zero => exact .pure _
  | succ n ih =>
    refine .bind .get fun s => .ite (.bind (destructor W ih a) fun _ => .bind (deref a) fun o => ?_) (.pure _)
    refine .bind (eraseObject a) fun _ => ?_
    cases o.role.previous with
    | none => exact .pure _
    | some q => exact ih q

private theorem release (a : Addr) : Follows Unpiped (TaoPQ.release W a : Prog DB Unit) :=
  .bind .get fun _ => releaseN W _ a

private theorem dropHandle (a : Addr) : Follows Unpiped (TaoPQ.dropHandle W a : Prog DB Unit) :=
  .bind (modify fun _ => rfl) fun _ => release W a

private theorem newTransactionBase (a : Addr) {r : Role} (hr : r.isPipeline = false) :
    Follows Unpiped (TaoPQ.newTransactionBase a r : Prog DB Unit) := by
  have pushed : Follows Unpiped (do TaoPQ.putObject a ⟨r, true⟩; setCurrent (some a) : Prog DB Unit) :=
    .bind (putObject a fun q hq => by cases hq; cases hr) fun _ => modify fun _ => rfl
  exact .bind .get fun _ => .ite (.bind (.throw _) fun _ => pushed) pushed

private theorem newSubtransactionBase (a : Addr) {r : Addr → Role} (hr : ∀ q, (r q).isPipeline = false) :
    Follows Unpiped (TaoPQ.newSubtransactionBase a r : Prog DB Unit) :=
  .bind .get fun s => .bind (derefPointer s.current) fun q =>
    .bind (putObject a fun q' hq => by
      have := congrArg (fun o : Object => o.role.isPipeline) hq
      rw [hr q] at this
      cases this) fun _ => modify fun _ => rfl

private theorem direct (a : Addr) : Follows Unpiped (TaoPQ.direct a : Prog DB Unit) :=
  .bind (newTransactionBase a rfl) fun _ => modify fun _ => rfl

private theorem unwindSubtransaction (a : Addr) : Follows Unpiped (TaoPQ.unwindSubtransaction W a : Prog DB Unit) :=
  .bind (deregister a) fun _ => .bind (deref a) fun o => .bind (eraseObject a) fun _ => by
    cases o.role.previous with
    | none => exact .pure _
    | some q => exact release W q

private theorem newSubtransaction (a : Addr) {r : Addr → Role} (hr : ∀ q, (r q).isPipeline = false) (k : Control) :
    Follows Unpiped (TaoPQ.newSubtransaction W a r k : Prog DB Unit) :=
  .bind (newSubtransactionBase a hr) fun _ =>
    .bind (.catchAll (keepsHeap (.execute W a _)) fun _ => .bind (unwindSubtransaction W a) fun _ => .throw _) fun _ =>
      modify fun _ => rfl

private theorem connectionExecute (d : Addr) (cmd : Command DB) :
    Follows Unpiped (TaoPQ.connectionExecute W d cmd) :=
  .bind (direct d) fun _ => .andFinally (keepsHeap (.execute W d cmd)) (dropHandle W d)

private theorem resetTransaction (b : Nat) : Follows Unpiped (TaoPQ.resetTransaction W b : Prog DB Unit) :=
  .bind (derefBulk b) fun k => .bind (modify fun _ => rfl) fun _ => by
    cases k.transaction with
    | none => exact .pure _
    | some g => exact release W g

private theorem resetPrevious (b : Nat) : Follows Unpiped (TaoPQ.resetPrevious W b : Prog DB Unit) :=
  .bind (derefBulk b) fun k => .bind (modify fun _ => rfl) fun _ => by
    cases k.previous with
    | none => exact .pure _
    | some o => exact release W o

private theorem destroyMembers (b : Nat) : Follows Unpiped (TaoPQ.destroyMembers W b : Prog DB Unit) :=
  .bind (resetTransaction W b) fun _ => .bind (resetPrevious W b) fun _ => modify fun _ => rfl

private theorem newBulk (reader : Bool) (o g : Addr) (b : Nat) (u : Statement DB) :
    Follows Unpiped (TaoPQ.newBulk W reader o g b u : Prog DB Unit) := by
  have hreader : Follows Unpiped (readerCheckResult W b : Prog DB Unit) := fun s =>
    wp_readerCheckResult W b (fun _ _ _ _ _ => id) (fun _ _ => id) (fun _ _ _ => id)
  refine .bind (.bind (keepsHeap (.derefConnection o)) fun _ => newSubtransactionBase g fun _ => rfl) fun _ =>
    .bind (modify fun _ => rfl) fun _ => .catchAll (.bind (keepsHeap (.send W g _)) fun _ => ?_) fun _ =>
      .bind (destroyMembers W b) fun _ => .throw _
  exact .ite hreader (keepsHeap (.writerCheckResult W b))

private theorem getRawData (b : Nat) : Follows Unpiped (TaoPQ.getRawData W b : Prog DB (Option Chunk)) :=
  .bind (keepsHeap (.guardOf b)) fun _ => .bind (keepsHeap (.onConnection _)) fun data =>
    .bind (derefBulk b) fun _ => .bind (modify fun _ => rfl) fun _ => by
      cases data with
      | some row => exact .pure _
      | none =>
        refine .bind (keepsHeap (.onConnection _)) fun r => ?_
        cases r with
        | none => exact keepsHeap (.onConnection _)
        | some r =>
          exact .bind (keepsHeap (.onConnection _)) fun _ => .bind (resetTransaction W b) fun _ =>
            .bind (resetPrevious W b) fun _ => .pure _

private theorem writerCommit (b : Nat) : Follows Unpiped (TaoPQ.writerCommit W b : Prog DB Nat) :=
  .bind (keepsHeap (.guardOf b)) fun _ => .bind (keepsHeap (.onConnection _)) fun _ =>
    .bind (keepsHeap (.getResult W _)) fun r => .bind (keepsHeap (.rowsAffected r)) fun _ =>
      .bind (resetTransaction W b) fun _ => .bind (resetPrevious W b) fun _ => .pure _

private theorem destroyBulk (b : Nat) : Follows Unpiped (TaoPQ.destroyBulk W b : Prog DB Unit) :=
  .bind (derefBulk b) fun k => by
    split
    · exact .bind (.catchAll (.bind (keepsHeap (.getResult W _)) fun _ => .pure _) fun _ => .pure _) fun _ =>
        destroyMembers W b
    · exact destroyMembers W b

/-- A call that does not enter pipeline mode makes no pipeline. -/
private theorem perform {c : Call DB} (hc : c.pipelined = false) : Follows Unpiped (TaoPQ.perform W c) := by
  cases c with
  | direct a => exact direct a
  | transaction a il am =>
    exact .bind (newTransactionBase a rfl) fun _ =>
      .bind (.catchAll (keepsHeap (.execute W a _)) fun _ => .bind (deregister a) fun _ => .bind (eraseObject a) fun _ =>
        .throw _) fun _ => modify fun _ => rfl
  | connectionPipeline d a => cases hc
  | connectionExecute d u => exact .bind (connectionExecute W d _) fun _ => .pure _
  | prepare name valid => exact keepsHeap (.onConnection _)
  | deallocate d name =>
    exact .bind (keepsHeap (.onConnection _)) fun _ => .bind .get fun _ =>
      .ite (.bind (connectionExecute W d _) fun _ => modify fun _ => rfl) (.throw _)
  | enterPipelineMode => cases hc
  | exitPipelineMode => exact keepsHeap (.onConnection _)
  | connectionSync => exact keepsHeap (.onConnection _)
  | subtransaction o a =>
    exact .bind (keepsHeap (.checkCurrentTransaction o)) fun _ => .bind (deref o) fun _ =>
      .ite (newSubtransaction W a (fun _ => rfl) _) (newSubtransaction W a (fun _ => rfl) _)
  | pipeline o a => cases hc
  | send o u => exact keepsHeap (.send W o _)
  | setSingleRowMode o => exact keepsHeap (.setSingleRowMode o)
  | setChunkMode o rows => exact keepsHeap (.setChunkMode o rows)
  | getResult o => exact keepsHeap (.bind (.getResult W o) fun _ => .pure ())
  | consumePipelineSync o => exact keepsHeap (.consumePipelineSync W o)
  | execute o u => exact keepsHeap (.bind (.execute W o _) fun _ => .pure ())
  | commit o => exact endWith o (.vCommit W o)
  | rollback o => exact endWith o (.vRollback W o)
  | sync o => exact keepsHeap (.bind (.derefConnection o) fun _ => .onConnection _)
  | consumeSync o => exact keepsHeap (.consumeSync W o)
  | finish o => exact finishWith (release W) o
  | copyHandle o => exact modify fun _ => rfl
  | dropHandle o => exact dropHandle W o
  | tableReader o g b u => exact newBulk W true o g b u
  | tableWriter o g b u => exact newBulk W false o g b u
  | getRow b => exact .bind (getRawData W b) fun _ => .pure _
  | insertRaw b data => exact keepsHeap (.bind (.guardOf b) fun _ => .onConnection _)
  | writerCommit b => exact .bind (writerCommit W b) fun _ => .pure _
  | destroyBulk b => exact destroyBulk W b

end Unpiped

/-! ### The beginning and the end of a pipeline -/

/-- There is no pipeline that was not finished, and pipeline mode is off. -/
def State.Over (s : State DB) : Prop :=
  (∀ p, ¬ s.Unfinished p) ∧ (s.conn.pg.isOpen = true → s.conn.pg.pipeline = false)

section Ends

variable {W : World} {s s' : State DB} {a o p : Addr}

private theorem State.Over.follows (h : s.Over) (hs : Unpiped s s') (hc : s.conn.Lasts s'.conn) : s'.Over := by
  refine ⟨fun p hp => h.1 p (hs p hp), fun ho => hc.1 (h.2 ?_)⟩
  by_contra hclosed
  have hlost : s'.conn.pg.isOpen = false := hc.2 (Bool.eq_false_iff.2 hclosed)
  rw [hlost] at ho
  cases ho

private theorem State.Over.leaves {α : Type} {x : Prog DB α} (h : s.Over) (hx : Follows Unpiped x)
    (hc : Follows (OnConnection Connection.Lasts) x) : Leaves x State.Over s :=
  Leaves.mono (Leaves.and (hx s) (hc s)) fun _ hs => h.follows hs.1 hs.2

/-- A call that does not enter pipeline mode leaves it off. -/
private theorem over_perform {c : Call DB} (h : s.Over) (hc : c.pipelined = false) :
    Leaves (perform W c) State.Over s := h.leaves (Unpiped.perform W hc) (perform_follows Connection.calls_last hc)

private theorem over_release (a : Addr) (s : State DB) (h : s.Over) : Leaves (release W a) State.Over s :=
  h.leaves (Unpiped.release W a) (OnConnection.release Connection.calls_last.statements a)

/-- The pipeline is finished when nothing is unread. -/
private theorem finishWith_over {release : Addr → Prog DB Unit}
    (hr : ∀ q (s : State DB), s.Over → Leaves (release q) State.Over s) (hp : s.Unfinished p)
    (honly : ∀ x, s.Unfinished x → x = p) (hs : s.conn.pg.isOpen = true → s.conn.pg.stream = []) :
    Leaves (finishWith release p) State.Over s := by
  obtain ⟨q, hq⟩ := hp
  have hunfinished (c : Connection DB) (x : Addr) : ¬ ({ s with
      conn := c, objects := s.objects.insert p ⟨.pipeline none, true⟩, current := some q } : State DB).Unfinished x := by
    rintro ⟨q', hq'⟩
    have hq' := (State.object_insert s p _ x).symm.trans hq'
    split at hq'
    · cases hq'
    · rename_i hne
      exact hne (honly x ⟨q', hq'⟩)
  simp only [finishWith, wp_bind, wp_deref, hq, Option.some.injEq, forall_eq', wp_setCurrent, wp_putObject, wp_andFinally,
    wp_onConnection, Connection.exitPipelineMode, Connection.libpqOr, wp_libpq, wp_ite, wp_pure, wp_throw, reduceCtorEq,
    false_implies, and_true]
  have hexit : s.conn.pg.exitPipelineMode.1.isOpen = true → s.conn.pg.exitPipelineMode.1.pipeline = false := by
    unfold PGconn.exitPipelineMode
    split
    · simp_all
    · simp_all
  exact ⟨fun _ => hr q _ ⟨hunfinished _, hexit⟩, fun _ => hr q _ ⟨hunfinished _, hexit⟩⟩

/-- A pipeline begins. -/
private theorem pipeline_piping (h : s.Over) (hr : s.Registered) (ho : s.Owned) (hproper : s.conn.pg.Proper)
    (hu : s.conn.pg.Uncopied) (ha : s.free a) :
    wp True (pipeline o a)
      (fun _ s' => s'.Piping a ∧
        ∃ q, s.current = some q ∧ s'.object a = some ⟨.pipeline (some q), true⟩)
      (fun _ s' => s'.Over) s := by
  simp only [pipeline, wp_bind, wp_checkCurrentTransaction, wp_get, implies_true, and_true]
  refine fun x hx => ⟨fun hc => ?_, fun _ => h⟩
  simp only [hc.2, wp_derefPointer_some, wp_onConnection, Connection.enterPipelineMode, Connection.libpqOr, wp_bind,
    wp_libpq, wp_ite, wp_pure, wp_throw, wp_putObject, wp_setCurrent, wp_hold, implies_true, and_true]
  have hn (x : Addr) (hx : s.Owns x) : x ≠ a := by
    rintro rfl
    have := ho.alive x hx
    rw [ha] at this
    cases this
  have hfresh (x : Addr) (y : Object) (hx : ({ s with
      objects := s.objects.insert a ⟨.pipeline (some o), true⟩ } : State DB).object x = some y) :
      x = a ∧ y = ⟨.pipeline (some o), true⟩ ∨ s.object x = some y := by
    rw [State.object_insert] at hx
    split at hx
    · exact .inl ⟨‹_›, (Option.some.inj hx).symm⟩
    · exact .inr hx
  have hoa : o ≠ a := by
    rintro rfl
    rw [ha] at hx
    cases hx
  have hobject : AList.lookup a (s.objects.insert a ⟨.pipeline (some o), true⟩) = some ⟨.pipeline (some o), true⟩ :=
    AList.lookup_insert _
  refine fun hq => ⟨fun hok => ⟨⟨?_, ?_, ?_, ?_, List.mem_cons_self, ?_, ?_, ?_, ?_, ?_⟩, o, rfl, ?_⟩,
    fun hok => ?_⟩
  · exact (hr.conn _).1.push (o := ⟨.pipeline (some o), true⟩) ha (congrArg some hc.2.symm)
  · have hput := ho.put (a := a) (o := ⟨.pipeline (some o), true⟩) (fun q hq' => Option.some.inj hq' ▸ hq) fun _ => rfl
    exact (((hput.current (some a)).1).conn _).1.hold hobject
  · exact ⟨o, hobject⟩
  · rintro x ⟨q, hx⟩
    rcases hfresh x _ hx with ⟨rfl, _⟩ | hx
    · rfl
    · exact absurd ⟨q, hx⟩ (h.1 x)
  · intro x y hx hy
    rcases hfresh x y hx with ⟨rfl, rfl⟩ | hx
    · exact hoa (Option.some.inj hy)
    · exact hn a (.inr (.inl ⟨x, y, hx, hy⟩)) rfl
  · exact fun b k hk => ⟨fun hp => hn a (.inr (.inr ⟨b, k, hk, .inl hp⟩)) rfl,
      fun hp => hn a (.inr (.inr ⟨b, k, hk, .inr hp⟩)) rfl⟩
  · exact s.conn.pg.enterPipelineMode_on hok
  · exact hproper.enterPipelineMode
  · exact (PGconn.uncopied_preserved (W := .calm)).enterPipelineMode _ hu
  · exact hobject
  · refine ⟨h.1, ?_⟩
    rw [s.conn.pg.enterPipelineMode_off hok]
    exact h.2

/-- The last handle to the pipeline is dropped when nothing is unread. -/
private theorem dropHandle_over (h : s.Piping p) (hp : p ∉ s.held.erase p)
    (hs : s.conn.pg.isOpen = true → s.conn.pg.stream = []) : Leaves (dropHandle W p) State.Over s := by
  obtain ⟨t, ht⟩ : ∃ t : State DB, t = { s with held := s.held.erase p } := ⟨_, rfl⟩
  have hunowned : t.unowned p = true := by
    refine (t.unowned_eq_true p).2 ?_
    rw [ht]
    rintro (hx | ⟨x, o, hx, hprevious⟩ | ⟨b, k, hb, hk⟩)
    · exact hp hx
    · exact h.previous x o hx hprevious
    · exact hk.elim (h.bulks b k hb).1 (h.bulks b k hb).2
  have hunfinished : t.Unfinished p := by
    rw [ht]
    exact h.unfinished
  have honly (x : Addr) (hx : t.Unfinished x) : x = p := by
    rw [ht] at hx
    exact h.only x hx
  have hstream : t.conn.pg.isOpen = true → t.conn.pg.stream = [] := by
    rw [ht]
    exact hs
  obtain ⟨q, hq⟩ := hunfinished
  simp only [dropHandle, wp_bind, wp_modify, release, wp_get]
  rw [← ht]
  cases hlength : s.objects.keys.length with
  | zero =>
    obtain ⟨q, hq⟩ := h.unfinished
    have := State.mem_keys hq
    rw [List.length_eq_zero_iff.1 hlength] at this
    cases this
  | succ n =>
    have hrelease (a : Addr) (s : State DB) (h : s.Over) : Leaves (releaseN W n a) State.Over s :=
      h.leaves (Unpiped.releaseN W n a) (OnConnection.releaseN Connection.calls_last.statements n a)
    have hfinish := finishWith_over hrelease ⟨q, hq⟩ honly hstream
    simp only [releaseN, wp_bind, wp_get, hunowned, ↓reduceIte, destructor, wp_deref, hq, Option.some.injEq, forall_eq',
      wp_catchAll, wp_pure, reduceCtorEq, and_true, wp_eraseObject, implies_true]
    have herase (s' : State DB) (h' : s'.Over) : Leaves (eraseObject p) State.Over s' :=
      h'.leaves (Unpiped.eraseObject p) (OnConnection.modify fun _ => rfl)
    refine wp_mono hfinish (fun _ s' h' o _ => ?_) (fun _ s' h' o _ => ?_)
    · cases o.role.previous with
      | none => exact herase s' h'
      | some q => exact hrelease q _ (herase s' h')
    · cases o.role.previous with
      | none => exact herase s' h'
      | some q => exact hrelease q _ (herase s' h')

end Ends

/-! ### Runs that use pipeline mode through pipelines -/

/-- The functions of `connection` for pipeline mode. -/
def Call.raw : Call DB → Bool
  | .enterPipelineMode | .exitPipelineMode => true
  | _ => false

/-- Only the current transaction is committed or rolled back, and a pipeline is finished, or its last handle dropped,
only when all results were read. -/
def Call.Careful (s : State DB) : Call DB → Prop
  | .commit o => s.current = some o
  | .rollback o => s.current = some o
  | .finish o => s.Unfinished o → s.conn.pg.isOpen = true → s.conn.pg.stream = []
  | .dropHandle o => s.Unfinished o ∧ s.held.count o = 1 → s.conn.pg.isOpen = true → s.conn.pg.stream = []
  | _ => True

instance (s : State DB) (p : Addr) : Decidable (s.Unfinished p) :=
  match h : s.object p with
  | some ⟨.pipeline (some q), true⟩ => .isTrue ⟨q, h⟩
  | some ⟨.pipeline (some _), false⟩ => .isFalse fun ⟨_, hq⟩ => by simp [h] at hq
  | some ⟨.pipeline none, _⟩ => .isFalse fun ⟨_, hq⟩ => by simp [h] at hq
  | some ⟨.autocommitTransaction, _⟩ => .isFalse fun ⟨_, hq⟩ => by simp [h] at hq
  | some ⟨.topLevelTransaction, _⟩ => .isFalse fun ⟨_, hq⟩ => by simp [h] at hq
  | some ⟨.topLevelSubtransaction _, _⟩ => .isFalse fun ⟨_, hq⟩ => by simp [h] at hq
  | some ⟨.nestedSubtransaction _, _⟩ => .isFalse fun ⟨_, hq⟩ => by simp [h] at hq
  | some ⟨.transactionGuard _, _⟩ => .isFalse fun ⟨_, hq⟩ => by simp [h] at hq
  | none => .isFalse fun ⟨_, hq⟩ => by simp [h] at hq

instance (s : State DB) : Decidable (s.conn.pg.isOpen = true → s.conn.pg.stream = []) :=
  decidable_of_iff (s.conn.pg.isOpen = true → s.conn.pg.stream.isEmpty = true) (by simp)

instance (s : State DB) : (c : Call DB) → Decidable (c.Careful s)
  | .commit o => inferInstanceAs (Decidable (s.current = some o))
  | .rollback o => inferInstanceAs (Decidable (s.current = some o))
  | .finish o => inferInstanceAs (Decidable (s.Unfinished o → s.conn.pg.isOpen = true → s.conn.pg.stream = []))
  | .dropHandle o =>
    inferInstanceAs (Decidable (s.Unfinished o ∧ s.held.count o = 1 → s.conn.pg.isOpen = true → s.conn.pg.stream = []))
  | .direct _ | .transaction _ _ _ | .connectionPipeline _ _ | .connectionExecute _ _ | .prepare _ _
  | .deallocate _ _ | .enterPipelineMode | .exitPipelineMode | .connectionSync | .subtransaction _ _
  | .pipeline _ _ | .send _ _ | .setSingleRowMode _ | .setChunkMode _ _ | .getResult _ | .consumePipelineSync _
  | .execute _ _ | .sync _ | .consumeSync _ | .copyHandle _ | .tableReader _ _ _ _ | .tableWriter _ _ _ _ | .getRow _
  | .insertRaw _ _ | .writerCommit _ | .destroyBulk _ => inferInstanceAs (Decidable True)

/-- Pipeline mode is off, or there is a pipeline. -/
def State.Tied (s : State DB) : Prop := s.Over ∨ ∃ p, s.Piping p

section Step

variable {W : World} {s s' : State DB} {p : Addr} {c : Call DB}

private theorem connectionPipeline_tied {d a : Addr} (h : s.Over) (hr : s.Registered) (ho : s.Owned)
    (hproper : s.conn.pg.Proper) (hu : s.conn.pg.Uncopied) (hd : s.free d) (ha : s.free a) (hda : d ≠ a) :
    Leaves (connectionPipeline W d a) State.Tied s := by
  have hbase : wp True (direct d) (fun _ s₁ => s₁.Registered ∧ s₁.current = some d) (fun _ _ => True) s := by
    simp only [direct, wp_bind, wp_hold]
    exact wp_mono (newTransactionBase_registered (r := .autocommitTransaction) rfl rfl hr hd)
      (fun _ s₁ h₁ => ⟨h₁.1, h₁.2.1⟩) (fun _ _ _ => trivial)
  have hconn : wp True (direct d) (fun _ s₁ => s₁.conn = s.conn) (fun _ _ => True) s := by
    simp only [direct, newTransactionBase, wp_bind, wp_get, wp_ite, wp_throw, wp_putObject, wp_setCurrent, wp_hold,
      implies_true, and_self]
  have hover : Leaves (direct d) State.Over s := h.leaves (Unpiped.direct d) (OnConnection.direct d)
  simp only [connectionPipeline, wp_bind, wp_andFinally]
  refine wp_mono (wp_and hover (wp_and hbase (wp_and hconn (direct_owned ho hd)))) ?_ (fun _ _ h₁ => .inl h₁.1)
  rintro _ s₁ ⟨hover, ⟨hr₁, hcurrent⟩, hconn, ho₁, hobject⟩
  have hdrop (s₂ : State DB) (h₂ : s₂.Over) : Leaves (dropHandle W d) State.Tied s₂ :=
    (h₂.leaves (Unpiped.dropHandle W d) (OnConnection.dropHandle Connection.calls_last.statements d)).mono fun _ => .inl
  have ha₁ : s₁.free a := (hobject a hda.symm).trans ha
  refine wp_mono (pipeline_piping hover hr₁ ho₁ (hconn ▸ hproper) (hconn ▸ hu) ha₁) ?_ (fun _ s₂ h₂ => ?_)
  · rintro _ s₂ ⟨h₂, q, hq, hpipeline⟩
    -- the direct transaction is owned by the pipeline
    obtain rfl : d = q := Option.some.inj (hcurrent.symm.trans hq)
    have hheld' : a ∈ s₂.held.erase d := (List.mem_erase_of_ne hda.symm).2 h₂.held
    have howns : ({ s₂ with held := s₂.held.erase d } : State DB).Owns d := .inr (.inl ⟨a, _, hpipeline, rfl⟩)
    simp only [dropHandle, wp_bind, wp_modify]
    exact wp_release_owns howns (.inr ⟨a, (h₂.drop hheld').1⟩)
  · exact wp_mono (hdrop s₂ h₂) (fun _ _ => id) (fun _ _ => id)

private theorem over_step (h : s.Over) (hr : s.Registered) (ho : s.Owned) (hproper : s.conn.pg.Proper)
    (hu : s.conn.pg.Uncopied) (hl : c.Legal s) (hc : c.raw = false) : Leaves (perform W c) State.Tied s := by
  by_cases hp : c.pipelined = false
  · exact (over_perform h hp).mono fun _ => .inl
  cases c with
  | pipeline o a =>
    exact wp_mono (pipeline_piping h hr ho hproper hu hl.2) (fun _ _ h' => .inr ⟨a, h'.1⟩) (fun _ _ => .inl)
  | connectionPipeline d a => exact connectionPipeline_tied h hr ho hproper hu hl.1 hl.2.1 hl.2.2
  | enterPipelineMode => cases hc
  | _ => exact absurd rfl hp

/-- `finish` ends the pipeline, if it is called on it, and pipeline mode with it. -/
private theorem finish_piping {o : Addr} (h : s.Piping p) (hl : o ∈ s.held) (hcareful : (Call.finish o).Careful s) :
    Leaves (perform W (.finish o)) (fun s' => State.Stays p s s' ∨ s'.Over) s := by
  obtain ⟨x, hx⟩ := Option.isSome_iff_exists.1 (h.owned.alive o (.inl hl))
  by_cases hunfinished : s.Unfinished o
  · obtain rfl := h.only o hunfinished
    exact (finishWith_over over_release h.unfinished h.only (hcareful hunfinished)).mono fun _ => .inr
  · have hnone : ∀ q, x.role ≠ .pipeline (some q) := by
      intro q hq
      have hconnected := h.owned.pipelines o x hx (by rw [hq]; rfl)
      exact hunfinished ⟨q, by rw [hx, ← hq, ← hconnected]⟩
    show wp True (finish W o) _ _ s
    simp only [finish, finishWith, wp_bind, wp_deref, hx, Option.some.injEq, forall_eq', reduceCtorEq, false_implies,
      and_true]
    exact .inl h.stays

/-- So does giving up the last handle to the pipeline. -/
private theorem dropHandle_piping {o : Addr} (h : s.Piping p) (hcareful : (Call.dropHandle o).Careful s) :
    Leaves (perform W (.dropHandle o)) (fun s' => State.Stays p s s' ∨ s'.Over) s := by
  by_cases hp : p ∈ s.held.erase o
  · show wp True (dropHandle W o) _ _ s
    simp only [dropHandle, wp_bind, wp_modify]
    have hdrop := h.drop hp
    exact (release_stays o hdrop.1).mono fun _ h' => .inl (hdrop.trans h')
  · have hop : o = p := by
      by_contra hne
      exact hp ((List.mem_erase_of_ne (Ne.symm hne)).2 h.held)
    subst hop
    have hcount : s.held.count o = 1 := by
      have herase := List.count_erase_self (a := o) (l := s.held)
      have hpos := List.count_pos_iff.2 h.held
      rw [List.count_eq_zero_of_not_mem hp] at herase
      omega
    exact (dropHandle_over h hp (hcareful ⟨h.unfinished, hcount⟩)).mono fun _ => .inr

/-- A step from a state with a pipeline keeps it, or ends it together with pipeline mode. -/
private theorem piping_step (h : s.Piping p) (hl : c.Legal s) (hc : c.raw = false) (hcareful : c.Careful s) :
    Leaves (perform W c) (fun s' => State.Stays p s s' ∨ s'.Over) s := by
  have keeps {x : Prog DB Unit} (hk : KeepsHeap x) (hx : Follows (OnConnection Connection.Tuned) x) :
      Leaves x (fun s' => State.Stays p s s' ∨ s'.Over) s := (h.leaves hk hx).mono fun _ => .inl
  have hnot {o : Addr} (ho : s.holdsTransaction o) : s.current ≠ some o := by
    rw [h.current]
    rintro ⟨⟩
    obtain ⟨q, hq⟩ := h.unfinished
    cases ho.2 _ hq
  have hsync (o : Addr) : Follows (OnConnection Connection.Tuned) (consumePipelineSync W o : Prog DB Unit) :=
    .bind (OnConnection.checkCurrentTransaction o) fun _ => OnConnection.onConnection <|
      .bind Connection.reads_tuned.getResult fun r => by
        cases r with
        | none => exact .throw _
        | some r => exact .ite (.pure _) (.throw _)
  have hdirect {s' : State DB} (h' : State.Stays p s s') (d : Addr) {Q : Unit → State DB → Prop} :
      wp True (direct d) Q (fun _ s' => State.Stays p s s' ∨ s'.Over) s' := by
    rw [direct, wp_bind]
    exact newTransactionBase_refused h'.1 _ fun _ => .inl h'
  cases c with
  | direct a => exact hdirect h.stays a
  | transaction a il am =>
    show wp True (transaction W a il am) _ _ s
    rw [transaction, wp_bind]
    exact newTransactionBase_refused h _ fun _ => .inl h.stays
  | connectionPipeline d a =>
    show wp True (connectionPipeline W d a) _ _ s
    rw [connectionPipeline, wp_bind]
    exact hdirect h.stays d
  | connectionExecute d u =>
    show wp True (ignore (connectionExecute W d (.user u))) _ _ s
    rw [ignore, wp_bind, connectionExecute, wp_bind]
    exact hdirect h.stays d
  | prepare name valid => exact keeps (.onConnection _) (OnConnection.onConnection (Connection.prepare_tuned name valid))
  | deallocate d name =>
    show wp True (deallocate W d name) _ _ s
    simp only [deallocate, wp_bind, wp_get, wp_ite, wp_throw]
    refine wp_mono (h.leaves (.onConnection _) (OnConnection.onConnection (.ite (.pure _) (.throw _))))
      (fun _ s₁ h₁ => ⟨fun _ => ?_, fun _ => .inl h₁⟩) (fun _ _ => .inl)
    rw [connectionExecute, wp_bind]
    exact hdirect h₁ d
  | enterPipelineMode => cases hc
  | exitPipelineMode => cases hc
  | connectionSync => exact keeps (.onConnection _) (OnConnection.onConnection Connection.pipelineSync_tuned)
  | subtransaction o a =>
    show wp True (subtransaction W o a) _ _ s
    rw [subtransaction, wp_bind]
    exact check_refused h hl.1 fun _ => .inl h.stays
  | pipeline o a =>
    show wp True (pipeline o a) _ _ s
    rw [pipeline, wp_bind]
    exact check_refused h hl.1 fun _ => .inl h.stays
  | send o u =>
    exact keeps (.send W o _) (.bind (OnConnection.checkCurrentTransaction o) fun _ =>
      OnConnection.onConnection (Connection.sendParams_tuned trivial))
  | setSingleRowMode o =>
    exact keeps (.setSingleRowMode o) (.bind (OnConnection.checkCurrentTransaction o) fun _ =>
      OnConnection.onConnection Connection.setSingleRowMode_tuned)
  | setChunkMode o rows =>
    exact keeps (.setChunkMode o rows) (.bind (OnConnection.checkCurrentTransaction o) fun _ =>
      OnConnection.onConnection (Connection.setChunkMode_tuned rows))
  | getResult o => exact keeps (.bind (.getResult W o) fun _ => .pure ()) (.bind (getResult_tuned o) fun _ => .pure _)
  | consumePipelineSync o => exact keeps (.consumePipelineSync W o) (hsync o)
  | execute o u =>
    show wp True (ignore (execute W o (.user u))) _ _ s
    rw [ignore, wp_bind, execute, wp_bind, send, wp_bind]
    exact check_refused h hl fun _ => .inl h.stays
  | commit o => exact absurd hcareful (hnot hl)
  | rollback o => exact absurd hcareful (hnot hl)
  | sync o =>
    exact keeps (.bind (.derefConnection o) fun _ => .onConnection _) (.bind (OnConnection.derefConnection o) fun _ =>
      OnConnection.onConnection Connection.pipelineSync_tuned)
  | consumeSync o =>
    exact keeps (.consumeSync W o) (.bind (OnConnection.derefConnection o) fun _ => .bind .get fun _ =>
      .bind (OnConnection.derefPointer _) fun q => hsync q)
  | finish o => exact finish_piping h hl.1 hcareful
  | copyHandle o =>
    obtain ⟨x, hx⟩ := Option.isSome_iff_exists.1 (h.owned.alive o (.inl hl))
    exact .inl (h.hold hx)
  | dropHandle o => exact dropHandle_piping h hcareful
  | tableReader o g b u => exact (newBulk_stays true b u h hl.1 hl.2.1).mono fun _ => .inl
  | tableWriter o g b u => exact (newBulk_stays false b u h hl.1 hl.2.1).mono fun _ => .inl
  | getRow b =>
    show wp True (ignore (getRawData W b)) _ _ s
    simp only [ignore, wp_bind, wp_pure]
    exact (getRawData_stays b h).mono fun _ => .inl
  | insertRaw b data =>
    exact keeps (.bind (.guardOf b) fun _ => .onConnection _) (.bind (OnConnection.guardOf b) fun _ =>
      OnConnection.onConnection (Connection.putCopyData_tuned data))
  | writerCommit b =>
    show wp True (ignore (writerCommit W b)) _ _ s
    simp only [ignore, wp_bind, wp_pure]
    exact (writerCommit_stays b h).mono fun _ => .inl
  | destroyBulk b => exact (destroyBulk_stays b h).mono fun _ => .inl

private theorem careful_inOrder (h : s.Tied) (ho : s.Owned) (hl : c.Legal s) (hc : c.Careful s) : c.InOrder s := by
  cases c with
  | commit o => exact hc
  | rollback o => exact hc
  | finish o =>
    by_cases hunfinished : s.Unfinished o
    · rcases h with h | ⟨p, h⟩
      · exact absurd hunfinished (h.1 o)
      · exact .inl (h.only o hunfinished ▸ h.current)
    · refine .inr fun x hx => ?_
      have hpipeline := hl.2 x hx
      have hconnected := ho.pipelines o x hx hpipeline
      obtain ⟨r, b⟩ := x
      cases r with
      | pipeline q =>
        cases q with
        | none => rfl
        | some q => exact absurd ⟨q, by rw [hx, ← hconnected]⟩ hunfinished
      | _ => cases hpipeline
  | _ => exact trivial

theorem Reaches.tied (h : Reaches W (fun s c => c.raw = false ∧ c.Careful s) s) : s.Tied ∧ s.Registered := by
  induction h with
  | init db =>
    refine ⟨.inl ⟨?_, fun _ => rfl⟩, .init db⟩
    rintro p ⟨q, hq⟩
    cases hq
  | @step s s' c hreached hok hs ih =>
    have ho := hreached.owned
    have hproper := hreached.proper
    have hu := hreached.preserved PGconn.uncopied_preserved fun db hp => by cases hp
    refine ⟨?_, registered_step ih.2 ho (careful_inOrder ih.1 ho hs.1 hok.2) hs⟩
    suffices htied : Leaves (perform W c) State.Tied s from Outcome.Sat.of_stateLeft htied hs.2
    rcases ih.1 with hover | ⟨p, hp⟩
    · exact over_step hover ih.2 ho hproper hu hs.1 hok.1
    · refine (piping_step hp hs.1 hok.1 hok.2).mono fun s' hs' => ?_
      exact hs'.elim (fun h => .inr ⟨p, h.1⟩) .inl

end Step

/-- In every state of a run that uses pipeline mode through pipelines, and ends them with care: pipeline mode is on if
and only if the current transaction is a pipeline, then no transaction can be used, and as long as the mode lasts no
block is ended. -/
theorem pipeline_mode_iff {W : World} {s : State DB} (h : Reaches W (fun s c => c.raw = false ∧ c.Careful s) s)
    (ho : s.conn.pg.isOpen = true) :
    (s.conn.pg.pipeline = true ↔ ∃ p q, s.current = some p ∧ s.object p = some ⟨.pipeline q, true⟩) ∧
      (s.conn.pg.pipeline = true → ∀ o x, s.object o = some x → x.role.isPipeline = false →
        checkCurrentTransaction o s = .throw (.logicError "invalid transaction order") s) ∧
      ∀ c s', c.raw = false → c.Careful s → Step W s c s' → s.conn.pg.pipeline = true →
        s'.conn.pg.isOpen = true → s'.conn.pg.pipeline = true →
          s'.conn.pg.session.block.isSome = s.conn.pg.session.block.isSome := by
  obtain ⟨htied, hr⟩ := h.tied
  have hpiping (hp : s.conn.pg.pipeline = true) : ∃ p, s.Piping p := by
    refine htied.resolve_left fun hover => ?_
    rw [hover.2 ho] at hp
    cases hp
  refine ⟨⟨fun hp => ?_, ?_⟩, fun hp o x hx hrole => ?_, fun c s' hraw hcareful hs hp hopen' hp' => ?_⟩
  · obtain ⟨p, hp⟩ := hpiping hp
    obtain ⟨q, hq⟩ := hp.unfinished
    exact ⟨p, some q, hp.current, hq⟩
  · rintro ⟨p, q, hcurrent, hq⟩
    rw [State.Registered, hcurrent] at hr
    obtain ⟨r, hr⟩ := hr.top
    rw [State.next_of_object hq] at hr
    cases q with
    | none => cases hr
    | some q =>
      rcases htied with hover | ⟨p', hp'⟩
      · exact absurd ⟨q, hq⟩ (hover.1 p)
      · exact hp'.pipeline
  · obtain ⟨p, hp⟩ := hpiping hp
    have hne : s.current ≠ some o := by
      rw [hp.current]
      rintro ⟨⟩
      obtain ⟨q, hq⟩ := hp.unfinished
      rw [hx] at hq
      cases hq
      cases hrole
    have hcheck : wp False (checkCurrentTransaction o)
        (fun _ _ => False) (fun e s' => e = .logicError "invalid transaction order" ∧ s' = s) s := by
      simp [wp_checkCurrentTransaction, hx, hne]
    obtain ⟨_, _, hthrow, rfl, rfl⟩ := exists_throw hcheck
    exact hthrow
  · obtain ⟨p, hp⟩ := hpiping hp
    rcases Outcome.Sat.of_stateLeft (piping_step hp hs.1 hraw hcareful) hs.2 with hstays | hover
    · exact hstays.2.1.1.block
    · rw [hover.2 hopen'] at hp'
      cases hp'

/-- A pipeline on a new connection is used, and all is read. -/
theorem pipeline_mode_iff_read : ∃ s : State Unit,
    Reaches .calm (fun s c => c.raw = false ∧ c.Careful s) s ∧ s.conn.pg.pipeline = true ∧
      ∃ p q, s.current = some p ∧ s.object p = some ⟨.pipeline q, true⟩ := by
  obtain ⟨s, hs, hopen, hp⟩ := Reaches.of_trace .calm (fun s c => c.raw = false ∧ c.Careful s)
    [.connectionPipeline 0 1, .send 1 ⟨"SELECT 1", .query some 1 1⟩, .sync 1, .getResult 1, .consumeSync 1, .finish 1,
      .connectionPipeline 2 3] ()
    (P := fun s => s.conn.pg.isOpen = true ∧ s.conn.pg.pipeline = true) (by decide +kernel)
  exact ⟨s, hs, hp, (pipeline_mode_iff hs hopen).1.1 hp⟩

/-- A pipeline is finished while a result is unread: `finish` throws, pipeline mode stays on, and the pipeline is no
longer the current transaction. -/
theorem finish_unread : ∃ s : State Unit, Reaches .calm (fun _ c => c.raw = false) s ∧ s.conn.pg.isOpen = true ∧
    ¬ (s.conn.pg.pipeline = true ↔ ∃ p q, s.current = some p ∧ s.object p = some ⟨.pipeline q, true⟩) := by
  obtain ⟨s, hs, hopen, hp, hcurrent⟩ := Reaches.of_trace .calm (fun _ c => c.raw = false)
    [.connectionPipeline 0 1, .send 1 ⟨"SELECT 1", .query some 1 1⟩, .finish 1] ()
    (P := fun s => s.conn.pg.isOpen = true ∧ s.conn.pg.pipeline = true ∧ s.current = none) (by decide +kernel)
  refine ⟨s, hs, hopen, fun h => ?_⟩
  obtain ⟨p, q, hcurrent', _⟩ := h.1 hp
  rw [hcurrent] at hcurrent'
  cases hcurrent'

end TaoPQ
