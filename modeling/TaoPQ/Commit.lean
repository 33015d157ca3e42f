import TaoPQ.Traffic

/-!
# What `commit` says about the server

When the server is told to commit a block in which a statement has failed, it rolls the block back, and answers with
`COMMAND OK` and the tag `ROLLBACK`.  `commit` looks at the status only, and returns as if the block were committed.
`commit_truthful_iff` says that this is the only case in which it does not tell the truth, for every run outside
pipeline mode.
-/

namespace TaoPQ

open Exec

variable {DB : Type}

namespace Connection

variable {W : World} {c : Connection DB} {σ : Session DB} {i : Item DB} {rest : List (Item DB)} {ub : Prop}

/-- Something that is to be read, and that `PQgetResult` takes away. -/
private def Reads (i : Item DB) (r : Option PGresult) : Prop := i = .null ∧ r = none ∨ ∃ x, i = .result x ∧ r = some x

private theorem isBusy_of_reads (h : c.Shows σ (i :: rest)) {r : Option PGresult} (hr : Reads i r) :
    c.pg.isBusy = true := by
  rcases hr with ⟨rfl, _⟩ | ⟨x, rfl, _⟩ <;> simp [PGconn.isBusy, h.isOpen, h.stream]

private theorem wp_getResult_delivered (h : c.Shows σ (i :: rest)) {r : Option PGresult} (hr : Reads i r)
    (hw : W.Delivers c.pg.clock) {E : Exn → Connection DB → Prop} :
    wp ub (getResult W) (fun v c' => v = r ∧ c'.Shows σ rest ∧ c'.pg.clock = c.pg.clock + 2) E c := by
  have hread : c.pg.tick.getResult = ({ c.pg.tick with stream := rest }, r) := by
    have ho : c.pg.tick.isOpen = true := h.isOpen
    have hs : c.pg.tick.stream = i :: rest := h.stream
    rcases hr with ⟨rfl, rfl⟩ | ⟨x, rfl, rfl⟩ <;> simp [PGconn.getResult, ho, hs]
  have hwait {Q : Unit → Connection DB → Prop} : wp ub (wait W) Q E c ↔ Q () { c with pg := c.pg.tick } := by
    unfold wp wait
    rw [hw.1]
    rfl
  simp only [getResult, waitWhen, wp_bind, wp_get, isBusy_of_reads h hr, ↓reduceIte, hwait, wp_libpq, hread, wp_pure]
  unfold wp handleNotifications
  have ht : W.handlerThrows (c.pg.clock + 1) = false := hw.2
  simp only [PGconn.tick, ht, Bool.false_eq_true, ↓reduceIte]
  exact ⟨trivial, ⟨h.isOpen, h.session, rfl, h.pipeline⟩, rfl⟩

private theorem wp_getResult_undelivered (h : c.Shows σ (i :: rest)) {r : Option PGresult} (hr : Reads i r)
    (hw : ¬ W.Delivers c.pg.clock) : wp ub (getResult W) (fun _ _ => False) (fun _ _ => True) c := by
  simp only [getResult, waitWhen, wp_bind, wp_get, isBusy_of_reads h hr, ↓reduceIte, wp_libpq, wp_pure]
  unfold wp wait
  cases hwait : W.wait c.pg.clock with
  | ready =>
    have hclock : (c.pg.tick.getResult).1.clock = c.pg.clock + 1 := by
      unfold PGconn.getResult
      repeat' split
      all_goals rfl
    have ht : W.handlerThrows (c.pg.tick.getResult).1.clock = true := by
      rw [hclock]
      exact Bool.of_not_eq_false fun hf => hw ⟨hwait, hf⟩
    simp only [Outcome.Sat, handleNotifications, ht, ↓reduceIte]
  | _ => exact trivial

/-- The answer to a command is returned exactly if it is delivered. -/
private theorem wp_fetchResult_delivered {r : PGresult} (h : c.Shows σ [.result r, .null]) (hr : r.status = .commandOk)
    (hw : W.Delivers c.pg.clock) (hw' : W.Delivers (c.pg.clock + 2)) {E : Exn → Connection DB → Prop} :
    wp ub (fetchResult W) (fun _ c' => c'.pg.session = σ) E c := by
  simp only [fetchResult, wp_bind]
  refine wp_mono (wp_getResult_delivered h (.inr ⟨r, rfl, rfl⟩) hw) (fun v c₁ h₁ => ?_) (fun _ _ => id)
  obtain ⟨rfl, h₁, hc⟩ := h₁
  simp only [hr, consumeEmptyResult, wp_bind]
  refine wp_mono (wp_getResult_delivered h₁ (.inl ⟨rfl, rfl⟩) (hc ▸ hw')) (fun v c₂ h₂ => ?_) (fun _ _ => id)
  obtain ⟨rfl, h₂, _⟩ := h₂
  simp only [wp_pure, result, hr]
  exact h₂.session

private theorem wp_fetchResult_undelivered {r : PGresult} (h : c.Shows σ [.result r, .null])
    (hr : r.status = .commandOk) (hw : ¬ (W.Delivers c.pg.clock ∧ W.Delivers (c.pg.clock + 2))) :
    wp ub (fetchResult W) (fun _ _ => False) (fun _ _ => True) c := by
  simp only [fetchResult, wp_bind]
  by_cases hd : W.Delivers c.pg.clock
  · refine wp_mono (wp_getResult_delivered h (.inr ⟨r, rfl, rfl⟩) hd) (fun v c₁ h₁ => ?_) (fun _ _ => id)
    obtain ⟨rfl, h₁, hc⟩ := h₁
    have hd' : ¬ W.Delivers c₁.pg.clock := fun h' => hw ⟨hd, hc ▸ h'⟩
    simp only [hr, consumeEmptyResult, wp_bind]
    exact wp_mono (wp_getResult_undelivered h₁ (.inl ⟨rfl, rfl⟩) hd') (fun _ _ => False.elim) (fun _ _ => id)
  · exact wp_mono (wp_getResult_undelivered h (.inr ⟨r, rfl, rfl⟩) hd) (fun _ _ => False.elim) (fun _ _ => id)

private theorem wp_fetchResult_fatal {r : PGresult} (h : c.Shows σ [.result r, .null]) (hr : r.status = .fatalError) :
    wp ub (fetchResult W) (fun _ _ => False) (fun _ _ => True) c := by
  simp only [fetchResult, wp_bind]
  by_cases hd : W.Delivers c.pg.clock
  · refine wp_mono (wp_getResult_delivered h (.inr ⟨r, rfl, rfl⟩) hd) (fun v c₁ h₁ => ?_) (fun _ _ => id)
    obtain ⟨rfl, h₁, _⟩ := h₁
    simp only [hr, consumeEmptyResult, wp_bind]
    by_cases hd' : W.Delivers c₁.pg.clock
    · refine wp_mono (wp_getResult_delivered h₁ (.inl ⟨rfl, rfl⟩) hd') (fun v c₂ h₂ => ?_) (fun _ _ => id)
      obtain ⟨rfl, _⟩ := h₂
      simp only [wp_pure, result, hr, wp_throw]
    · exact wp_mono (wp_getResult_undelivered h₁ (.inl ⟨rfl, rfl⟩) hd') (fun _ _ => False.elim) (fun _ _ => id)
  · exact wp_mono (wp_getResult_undelivered h (.inr ⟨r, rfl, rfl⟩) hd) (fun _ _ => False.elim) (fun _ _ => id)

end Connection

/-! ### The truth of `commit` -/

namespace Session

variable {σ : Session DB}

/-- Told to commit, the server rolls the block back: a statement has failed in it, or a deferred check refuses. -/
def RollsBack (σ : Session DB) (refused : Bool) : Prop :=
  ∃ b, σ.block = some b ∧ (b.failed = true ∨ refused = true)

theorem rollsBack_of_failed (hf : σ.failed = true) (refused : Bool) : σ.RollsBack refused := by
  obtain ⟨b, hb, hf⟩ := (Option.any_eq_true _ _).1 hf
  exact ⟨b, hb, .inl hf⟩

/-- In a failed block, the answer is a success. -/
theorem status_of_failed (hf : σ.failed = true) (refused : Bool) :
    (σ.control refused .commitTransaction).2.status = .commandOk := by
  obtain ⟨b, hb, hf⟩ := (Option.any_eq_true _ _).1 hf
  simp [control, hb, hf, PGresult.plain]

/-- Otherwise the answer is a success if the block is committed. -/
theorem committed_of_status (hf : σ.failed = false) {refused : Bool}
    (hs : (σ.control refused .commitTransaction).2.status = .commandOk) :
    ¬ σ.RollsBack refused ∧
      (σ.control refused .commitTransaction).1 = { σ with committed := σ.content, block := none } := by
  rcases hb : σ.block with _ | b
  · refine ⟨?_, ?_⟩
    · rintro ⟨b, hb', -⟩
      rw [hb] at hb'
      cases hb'
    · obtain ⟨db, block, prepared⟩ := σ
      obtain rfl : block = none := hb
      rfl
  · have hbf : b.failed = false := by simpa [failed, hb] using hf
    cases refused with
    | true => simp [control, hb, hbf, PGresult.fatal, PGresult.plain] at hs
    | false =>
      refine ⟨?_, ?_⟩
      · rintro ⟨b', hb', hb''⟩
        obtain rfl := Option.some.inj (hb.symm.trans hb')
        simp [hbf] at hb''
      · simp [control, content, hb, hbf]

end Session

namespace Connection

variable {W : World} {c : Connection DB} {σ : Session DB} {ub : Prop}

/-- A `COMMIT` that the server answers with a success returns if the answer is delivered, -/
private theorem wp_commit_answered (h : c.Shows σ [])
    (hs : (σ.control (W.commitRefused c.pg.clock) .commitTransaction).2.status = .commandOk)
    (hd : W.Delivers (c.pg.clock + 1)) (hd' : W.Delivers (c.pg.clock + 3)) {E : Exn → Connection DB → Prop} :
    wp ub (do sendParams W (.control .commitTransaction); fetchResult W) (fun _ _ => True) E c := by
  rw [wp_bind]
  refine wp_mono (wp_sendParams_control h _) (fun _ c₁ h₁ => ?_) (fun _ _ => id)
  obtain ⟨h₁, hc⟩ := h₁
  refine wp_mono (wp_fetchResult_delivered h₁ hs ?_ ?_) (fun _ _ _ => trivial) (fun _ _ => id)
  · rw [hc]
    exact hd
  · rw [hc]
    exact hd'

/-- and only then. -/
private theorem wp_commit_returned (h : c.Shows σ []) :
    let answer := σ.control (W.commitRefused c.pg.clock) .commitTransaction
    wp ub (do sendParams W (.control .commitTransaction); fetchResult W)
      (fun _ c' => answer.2.status = .commandOk ∧ (W.Delivers (c.pg.clock + 1) ∧ W.Delivers (c.pg.clock + 3)) ∧
        c'.pg.session = answer.1) (fun _ _ => True) c := by
  intro answer
  rw [wp_bind]
  refine wp_mono (wp_sendParams_control h _) (fun _ c₁ h₁ => ?_) (fun _ _ => id)
  obtain ⟨h₁, hc⟩ := h₁
  rcases control_status σ (W.commitRefused c.pg.clock) .commitTransaction with hs | hs
  · by_cases hd : W.Delivers (c.pg.clock + 1) ∧ W.Delivers (c.pg.clock + 3)
    · refine wp_mono (wp_fetchResult_delivered h₁ hs ?_ ?_) (fun _ _ h₂ => ⟨hs, hd, h₂⟩) (fun _ _ => id)
      · rw [hc]
        exact hd.1
      · rw [hc]
        exact hd.2
    · refine wp_mono (wp_fetchResult_undelivered h₁ hs ?_) (fun _ _ => False.elim) (fun _ _ => id)
      rw [hc]
      exact hd
  · exact wp_mono (wp_fetchResult_fatal h₁ hs) (fun _ _ => False.elim) (fun _ _ => id)

end Connection

/-- When `commit` returns, the server has not rolled the block back, and what the session saw is committed. -/
def CommitTruthful (W : World) (s : State DB) (o : Addr) : Prop := ∀ s', commit W o s = .ret () s' →
  ¬ s.conn.pg.session.RollsBack (W.commitRefused s.conn.pg.clock) ∧
    s'.conn.pg.session = { s.conn.pg.session with committed := s.conn.pg.session.content, block := none }

/-- `COMMIT` is sent in a block in which a statement has failed, and its answer is read. -/
def CommitsFailedBlock (W : World) (s : State DB) (o : Addr) : Prop :=
  (s.conn.pg.session.failed = true ∧ s.conn.pg.isOpen = true ∧ s.conn.pg.stream = []) ∧
    (s.current = some o ∧ ∃ x, s.object o = some x ∧ x.connected = true) ∧
    W.Delivers (s.conn.pg.clock + 1) ∧ W.Delivers (s.conn.pg.clock + 3)

section Commit

variable {W : World} {s : State DB} {o : Addr} {x : Object} {ub : Prop}

/-- The commit of the current transaction. -/
private theorem wp_commit_current (hx : s.object o = some x) (hc : x.connected = true) (ht : s.current = some o)
    (hr : x.role.ownsBlock = true) {Q : Unit → State DB → Prop} {E : Exn → State DB → Prop} :
    wp ub (commit W o) Q E s ↔
      wp ub (do Connection.sendParams W (.control .commitTransaction); Connection.fetchResult W)
        (fun _ c => Q () (({ s with conn := c } : State DB).ended o x))
        (fun e c => E e (({ s with conn := c } : State DB).ended o x)) s.conn := by
  have hreset (c : Connection DB) {Q : Unit → State DB → Prop} :
      wp ub (vReset o) Q E { s with conn := c } ↔ Q () (({ s with conn := c } : State DB).ended o x) :=
    wp_vReset (s := { s with conn := c }) hx hc
  have hv {Q : Unit → State DB → Prop} {E : Exn → State DB → Prop} :
      wp ub (vCommit W o) Q E s ↔ wp ub (execute W o (.control .commitTransaction)) (fun _ => Q ()) E s := by
    simp only [vCommit, wp_bind, wp_deref, hx, Option.some.injEq, forall_eq', reduceCtorEq, false_implies, and_true]
    cases hrole : x.role with
    | topLevelTransaction => simp only [wp_bind, wp_pure]
    | topLevelSubtransaction p => simp only [wp_bind, wp_pure]
    | _ => simp [hrole, Role.ownsBlock] at hr
  simp only [commit, endWith, wp_bind, wp_catchAll, wp_check_current hx hc ht, hv, wp_execute_current hx hc ht, hreset,
    wp_throw]

private theorem wp_commit_outOfOrder (ho : ∀ x, s.object o = some x → ¬ (x.connected = true ∧ s.current = some o)) :
    wp True (commit W o) (fun _ _ => False) (fun _ _ => True) s := by
  simp only [commit, endWith, wp_bind, wp_catchAll, wp_checkCurrentTransaction, implies_true, and_true, wp_throw]
  refine fun x hx => ⟨fun hc => absurd hc (ho x hx), fun _ => ?_⟩
  exact wp_trivial (fun _ _ => trivial) (fun _ _ => trivial)

/-- `commit` tells the truth, unless the block has failed and `COMMIT` is nevertheless sent and answered. -/
theorem commit_truthful_iff (h : Reaches W (fun _ c => c.pipelined = false) s) (hx : s.object o = some x)
    (hr : x.role.ownsBlock = true) : CommitTruthful W s o ↔ ¬ CommitsFailedBlock W s o := by
  have hplain := h.plain
  have shows (hopen : s.conn.pg.isOpen = true) (hstream : s.conn.pg.stream = []) :
      s.conn.Shows s.conn.pg.session [] := ⟨hopen, rfl, hstream, hplain⟩
  constructor
  · rintro htrue ⟨⟨hf, hopen, hstream⟩, ⟨ht, y, hy, hc⟩, hd, hd'⟩
    obtain rfl := Option.some.inj (hx.symm.trans hy)
    have hreturns : wp False (commit W o) (fun _ _ => True) (fun _ _ => False) s := by
      rw [wp_commit_current hx hc ht hr]
      exact Connection.wp_commit_answered (shows hopen hstream) (Session.status_of_failed hf _) hd hd'
    obtain ⟨_, s', hs', _⟩ := exists_ret hreturns
    exact (htrue s' hs').1 (Session.rollsBack_of_failed hf _)
  · intro hbad s' hs'
    by_cases hin : x.connected = true ∧ s.current = some o
    · obtain ⟨hc, ht⟩ := hin
      have hreturned : wp True (commit W o) (fun _ s' =>
          ¬ s.conn.pg.session.RollsBack (W.commitRefused s.conn.pg.clock) ∧
            s'.conn.pg.session = { s.conn.pg.session with committed := s.conn.pg.session.content, block := none })
          (fun _ _ => True) s := by
        rw [wp_commit_current hx hc ht hr]
        by_cases hsent : s.conn.pg.isOpen = true ∧ s.conn.pg.stream = []
        · refine wp_mono (Connection.wp_commit_returned (shows hsent.1 hsent.2)) (fun _ c hq => ?_) (fun _ _ => id)
          obtain ⟨hs, hd, hsession⟩ := hq
          have hf : s.conn.pg.session.failed = false :=
            Bool.eq_false_iff.2 fun hf => hbad ⟨⟨hf, hsent⟩, ⟨ht, x, hx, hc⟩, hd⟩
          obtain ⟨hkept, hcommitted⟩ := Session.committed_of_status hf hs
          exact ⟨hkept, hsession.trans hcommitted⟩
        · rw [wp_bind]
          refine Connection.wp_sendParams_refused _ ?_ fun _ _ => trivial
          by_cases hopen : s.conn.pg.isOpen = true
          · exact .inr ⟨hplain, fun hstream => hsent ⟨hopen, hstream⟩⟩
          · exact .inl (Bool.eq_false_iff.2 hopen)
      exact wp_ret hreturned hs'
    · refine (wp_ret (wp_commit_outOfOrder fun y hy => ?_) hs').elim
      rw [Option.some.inj (hy.symm.trans hx)]
      exact hin

theorem commit_truthful_iff_updated : ∃ s : State Nat, Reaches .calm (fun _ c => c.pipelined = false) s ∧
    s.conn.pg.session.content = 1 ∧ (CommitTruthful .calm s 1 ↔ ¬ CommitsFailedBlock .calm s 1) := by
  obtain ⟨s, hs, hx, hdb⟩ := Reaches.of_trace .calm (fun _ c => c.pipelined = false)
    [.transaction 1 .defaultIsolationLevel .defaultAccessMode,
      .execute 1 ⟨"UPDATE t SET n = n + 1", .command (fun n => some (n + 1)) (some 1)⟩] 0
    (P := fun s => s.object 1 = some ⟨.topLevelTransaction, true⟩ ∧ s.conn.pg.session.content = 1) (by decide +kernel)
  exact ⟨s, hs, hdb, commit_truthful_iff hs hx rfl⟩

/-- An update, and a statement that fails and whose exception is caught: `commit` returns, and the update is lost. -/
theorem failed_block_not_truthful : ∃ s : State Nat, Reaches .calm (fun _ c => c.pipelined = false) s ∧
    s.object 1 = some ⟨.topLevelTransaction, true⟩ ∧ (Call.commit 1 : Call Nat).Legal s ∧
    (∃ s', commit .calm 1 s = .ret () s' ∧ s.conn.pg.session.content = 1 ∧ s'.conn.pg.session.content = 0) ∧
    ¬ CommitTruthful .calm s 1 := by
  obtain ⟨s, hs, hx, hl, hdb, hlost⟩ := Reaches.of_trace .calm (fun _ c => c.pipelined = false)
    [.transaction 1 .defaultIsolationLevel .defaultAccessMode,
      .execute 1 ⟨"UPDATE t SET n = n + 1", .command (fun n => some (n + 1)) (some 1)⟩,
      .execute 1 ⟨"UPDATE t SET n = 1 / 0", .command (fun _ => none) none⟩] 0
    (P := fun s => s.object 1 = some ⟨.topLevelTransaction, true⟩ ∧ (Call.commit 1).Legal s ∧
      s.conn.pg.session.content = 1 ∧
      (match commit .calm 1 s with
        | .ret _ s' => s'.conn.pg.session.content == 0
        | _ => false) = true) (by decide +kernel)
  cases hc : commit .calm 1 s with
  | ret v s' =>
    rw [hc] at hlost
    have hlost : s'.conn.pg.session.content = 0 := beq_iff_eq.1 hlost
    refine ⟨s, hs, hx, hl, ⟨s', hc, hdb, hlost⟩, fun ht => ?_⟩
    have hkept : s'.conn.pg.session.content = s.conn.pg.session.content := by
      rw [(ht s' hc).2]
      rfl
    omega
  | throw e s' => simp [hc] at hlost
  | undefined => simp [hc] at hlost

end Commit

end TaoPQ
