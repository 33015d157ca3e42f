import TaoPQ.Ownership
import TaoPQ.Traffic

/-!
# Which wrong-order calls are noticed

A function that is called through an object that is not the current one should throw `std::logic_error` before it
calls libpq (`Noticed`).  Most functions begin with the order check and do so.  The exceptions are `pipeline::sync`
and the constructors of table readers and table writers, which do not make the check for the object they are given,
`pipeline::consume_sync`, which makes it for whatever object is current, and `commit` and `rollback` of an object that
was ended already, whose connection is gone when `v_reset` follows it (`NoticedWhen`).

Being noticed is not all: `commit` and `rollback` make the check inside the block whose handler ends the object, so
that a call that is rejected ends it all the same (`rejected_end_harms`).

A constructor of a table reader or writer does call libpq: its guard becomes the current object.  That it can not be
undone by what follows is what `CallsGrow` is about.
-/

namespace TaoPQ

open Exec

variable {DB : Type}

/-! ### The record of the calls of libpq -/

/-- The record of the calls has only grown. -/
def Connection.CallsGrow (c c' : Connection DB) : Prop := c.calls <:+ c'.calls

instance : IsPreorder (Connection DB) Connection.CallsGrow where
  refl _ := List.suffix_rfl
  trans _ _ _ := List.IsSuffix.trans

namespace Connection

variable {W : World}

private theorem libpq_grows {β : Type} (call : LibpqCall) (f : PGconn DB → PGconn DB × β) :
    Follows CallsGrow (libpq call f) := fun _ => List.suffix_cons _ _

private theorem libpqOr_grows (call : LibpqCall) (f : PGconn DB → PGconn DB × Bool) (e : Exn) :
    Follows CallsGrow (libpqOr call f e) :=
  .bind (libpq_grows call f) fun _ => .ite (.pure _) (.throw e)

private theorem callsGrow : CallsFollow W (@CallsGrow DB) where
  wait := by
    intro c
    unfold wp wait
    cases W.wait c.pg.clock <;> exact List.suffix_rfl
  handleNotifications := by
    intro c
    unfold wp handleNotifications
    split <;> exact List.suffix_rfl
  libpqGetResult := libpq_grows _ _
  libpqGetCopyData := libpq_grows _ _
  libpqPutCopyEnd _ := libpq_grows _ _
  cancel := libpqOr_grows _ _ _
  sendParams _ := .bind .get fun _ => libpqOr_grows _ _ _
  setSingleRowMode := libpqOr_grows _ _ _
  setChunkMode _ := libpqOr_grows _ _ _
  libpqPutCopyData _ := libpqOr_grows _ _ _
  attemptRollback := .bind (libpq_grows _ _) fun t => by cases t <;> exact .pure _
  exitPipelineMode := libpqOr_grows _ _ _
  pipelineSync := libpqOr_grows _ _ _
  libpqSendPrepare _ _ := libpqOr_grows _ _ _
  prepared _ _ := List.suffix_rfl

end Connection

/-! ### Wrong-order calls -/

/-- The object is not the current one, or it was ended. -/
def State.OutOfOrder (s : State DB) (o : Addr) : Prop :=
  ∀ x, s.object o = some x → ¬ (x.connected = true ∧ s.current = some o)

/-- The object through which a call talks to the server. -/
def Call.through : Call DB → Option Addr
  | .subtransaction o _ | .pipeline o _ | .send o _ | .setSingleRowMode o | .setChunkMode o _ | .getResult o
  | .consumePipelineSync o | .execute o _ | .commit o | .rollback o | .sync o | .consumeSync o
  | .tableReader o _ _ _ | .tableWriter o _ _ _ => some o
  | .direct _ | .transaction _ _ _ | .connectionPipeline _ _ | .connectionExecute _ _ | .prepare _ _
  | .deallocate _ _ | .enterPipelineMode | .exitPipelineMode | .connectionSync | .finish _ | .copyHandle _
  | .dropHandle _ | .getRow _ | .insertRaw _ _ | .writerCommit _ | .destroyBulk _ => none

/-- The call throws `std::logic_error`, and calls no function of libpq. -/
def Noticed (W : World) (s : State DB) (c : Call DB) : Prop :=
  ∃ what s', perform W c s = .throw (.logicError what) s' ∧ s'.conn.calls = s.conn.calls

/-- Which wrong-order calls are noticed. -/
def Call.NoticedWhen (s : State DB) : Call DB → Prop
  | .commit o | .rollback o => ∀ x, s.object o = some x → x.connected = true
  | .consumeSync _ => ∃ p x, s.current = some p ∧ s.object p = some x ∧ x.connected = false
  | .sync _ | .tableReader _ _ _ _ | .tableWriter _ _ _ _ => False
  | _ => True

section Noticed

variable {W : World} {s : State DB} {o : Addr}

private theorem noticed_iff_wp {c : Call DB} :
    Noticed W s c ↔ wp False (perform W c) (fun _ _ => False)
      (fun e s' => (∃ what, e = .logicError what) ∧ s'.conn.calls = s.conn.calls) s := by
  unfold Noticed wp
  cases perform W c s with
  | ret a s' => simp [Outcome.Sat]
  | undefined => simp [Outcome.Sat]
  | throw e s' =>
    simp only [Outcome.throw.injEq, Outcome.Sat]
    constructor
    · rintro ⟨what, _, ⟨rfl, rfl⟩, hc⟩
      exact ⟨⟨what, rfl⟩, hc⟩
    · rintro ⟨⟨what, rfl⟩, hc⟩
      exact ⟨what, s', ⟨rfl, rfl⟩, hc⟩

/-- A call is not noticed when it can not throw `std::logic_error` without having called libpq. -/
private theorem not_noticed {c : Call DB}
    (h : wp True (perform W c) (fun _ _ => True)
      (fun e s' => (∃ what, e = .logicError what) → s'.conn.calls ≠ s.conn.calls) s) : ¬ Noticed W s c := by
  rintro ⟨what, s', hs, hc⟩
  exact wp_thrown h hs ⟨what, rfl⟩ hc

/-- The order check throws before anything else happens. -/
private theorem wp_check_outOfOrder {ub : Prop} {x : Object} (hx : s.object o = some x) (ho : s.OutOfOrder o)
    {Q : Unit → State DB → Prop} {E : Exn → State DB → Prop} :
    wp ub (checkCurrentTransaction o) Q E s ↔ E (.logicError "invalid transaction order") s := by
  rw [wp_checkCurrentTransaction]
  constructor
  · exact fun h => (h.1 x hx).2 (ho x hx)
  · refine fun h => ⟨fun y hy => ⟨fun hc => absurd hc (ho y hy), fun _ => h⟩, fun hn => ?_⟩
    rw [hx] at hn
    cases hn

private theorem noticed_of_check {c : Call DB}
    (h : ∀ E : Exn → State DB → Prop, E (.logicError "invalid transaction order") s →
      wp False (perform W c) (fun _ _ => False) E s) : Noticed W s c ↔ True :=
  iff_true_intro (noticed_iff_wp.2 (h _ ⟨⟨_, rfl⟩, rfl⟩))

private theorem endWith_outOfOrder {x : Object} (hx : s.object o = some x) (ho : s.OutOfOrder o) (f : Prog DB Unit)
    {E : Exn → State DB → Prop} (hE : ∀ s', s'.conn = s.conn → E (.logicError "invalid transaction order") s') :
    wp False (endWith o f) (fun _ _ => False) E s ↔ x.connected = true := by
  simp only [endWith, vReset, derefConnection, wp_bind, wp_catchAll, wp_deref, wp_ite, wp_pure, wp_undefined, wp_throw,
    wp_setCurrent, wp_putObject]
  rw [wp_check_outOfOrder hx ho]
  simp only [hx, Option.some.injEq, forall_eq', reduceCtorEq, imp_false, not_not, not_false_eq_true, and_true]
  exact ⟨fun h => h.2, fun h => ⟨fun _ => hE _ rfl, h⟩⟩

/-- `std::logic_error` is not thrown. -/
private def NoLogic {σ α : Type} (x : Exec σ Exn α) : Prop :=
  ∀ s, wp True x (fun _ _ => True) (fun e _ => ∀ what, e ≠ .logicError what) s

private theorem getResult_noLogic : NoLogic (Connection.getResult W : Exec (Connection DB) Exn _) := by
  intro c
  simp only [Connection.getResult, Connection.waitWhen, wp_bind, wp_get, wp_ite, wp_pure]
  have drained (c : Connection DB) :
      wp True (Connection.handleNotifications W) (fun _ _ => True) (fun e _ => ∀ what, e ≠ .logicError what) c := by
    unfold wp Connection.handleNotifications
    split <;> simp [Outcome.Sat]
  refine ⟨fun _ => ?_, fun _ => drained _⟩
  unfold wp Connection.wait
  cases W.wait c.pg.clock with
  | ready => exact drained _
  | _ => simp [Outcome.Sat]

private theorem fetchPipelineSync_noLogic :
    NoLogic (Connection.fetchPipelineSync W : Exec (Connection DB) Exn _) := by
  intro c
  simp only [Connection.fetchPipelineSync, wp_bind]
  refine wp_mono (getResult_noLogic c) (fun r c' _ => ?_) (fun _ _ => id)
  cases r with
  | none => simp
  | some r => simp

/-- The guard of a table reader or writer is the current object when its command is sent. -/
private theorem newBulk_calls {reader : Bool} {g : Addr} {b : Nat} {u : Statement DB} :
    wp True (newBulk W reader o g b u) (fun _ _ => True) (fun _ s' => s'.conn.calls ≠ s.conn.calls) s := by
  simp only [newBulk, newTransactionGuard, newSubtransactionBase, wp_bind, wp_get, wp_catchAll, wp_putBulk, wp_throw]
  refine wp_derefConnection o fun _ _ _ => ?_
  rcases s.current with _ | p
  · exact trivial
  -- calls are only ever added, so that one more than at the start is a difference for good
  have differs (call : LibpqCall) (t : State DB) (ht : call :: s.conn.calls <:+ t.conn.calls) :
      t.conn.calls ≠ s.conn.calls := by
    intro he
    have hlen := ht.length_le
    rw [he, List.length_cons] at hlen
    omega
  have destroyed (call : LibpqCall) (t : State DB) (ht : call :: s.conn.calls <:+ t.conn.calls) :
      Leaves (destroyMembers W b) (fun t => t.conn.calls ≠ s.conn.calls) t :=
    (OnConnection.destroyMembers Connection.callsGrow.statements b).leaves fun t' h' => differs call t' (ht.trans h')
  simp only [wp_derefPointer_some, wp_putObject, wp_setCurrent, implies_true, and_true, send, wp_bind,
    wp_checkCurrentTransaction, wp_onConnection, Connection.sendParams, Connection.libpqOr, wp_get, wp_libpq]
  intro _ x hx
  obtain rfl : (⟨.transactionGuard p, true⟩ : Object) = x :=
    Option.some.inj ((State.object_insert s g _ g).trans (if_pos rfl) ▸ hx)
  refine ⟨fun _ => ?_, fun hn => absurd rfl hn⟩
  rw [wp_ite]
  refine ⟨fun _ => ?_, fun _ => destroyed _ _ List.suffix_rfl⟩
  have checked : Follows (OnConnection Connection.CallsGrow)
      (if reader then readerCheckResult W b else writerCheckResult W b : Prog DB Unit) :=
    .ite (OnConnection.readerCheckResult Connection.callsGrow.statements b)
      (OnConnection.writerCheckResult Connection.callsGrow.statements b)
  exact checked.wp_of (fun _ _ _ => trivial) fun _ t ht => destroyed _ t ht

private theorem consumeSync_noticed {x : Object} (hx : s.object o = some x) (hconn : x.connected = true) :
    Noticed W s (.consumeSync o : Call DB) ↔ (.consumeSync o : Call DB).NoticedWhen s := by
  have hstart {Q : Unit → State DB → Prop} {E : Exn → State DB → Prop} {ub : Prop} :
      wp ub (perform W (.consumeSync o)) Q E s ↔
        wp ub (do let p ← derefPointer s.current; consumePipelineSync W p) Q E s := by
    simp only [perform, consumeSync, derefConnection, wp_bind, wp_deref, wp_ite, wp_pure, wp_undefined, wp_get, hx,
      Option.some.injEq, forall_eq', hconn, not_true_eq_false, false_implies, reduceCtorEq, and_true, true_implies]
  constructor
  · intro hn
    by_contra hw
    refine not_noticed (c := .consumeSync o) (hstart.2 ?_) hn
    rcases hp : s.current with _ | p
    · exact trivial
    simp only [wp_bind, wp_derefPointer_some, consumePipelineSync, wp_checkCurrentTransaction, wp_onConnection,
      implies_true, and_true]
    refine fun _ y hy => ⟨fun _ => ?_, fun hc => absurd ⟨p, y, hp, hy, by simpa [hp] using hc⟩ hw⟩
    refine wp_mono (fetchPipelineSync_noLogic s.conn) (fun _ _ _ => trivial) ?_
    rintro e c' he ⟨what, rfl⟩
    exact absurd rfl (he what)
  · rintro ⟨p, y, hp, hy, hc⟩
    rw [noticed_iff_wp, hstart, hp]
    simp only [wp_bind, wp_derefPointer_some, consumePipelineSync, wp_checkCurrentTransaction, hy, hc,
      Option.some.injEq, forall_eq', Option.isSome_some, reduceCtorEq, false_and, not_false_eq_true, true_implies,
      false_implies, true_and, and_true, Exn.logicError.injEq, exists_eq']

/-- Exactly which calls through an object that is not current, or was ended, are noticed before anything is sent. -/
theorem noticed_iff {c : Call DB} (h : Reachable W s) (hl : c.Legal s) (hc : c.through = some o)
    (ho : s.OutOfOrder o) : Noticed W s c ↔ c.NoticedWhen s := by
  have alive (ho : o ∈ s.held) : ∃ x, s.object o = some x :=
    Option.isSome_iff_exists.1 (h.owned.alive o (.inl ho))
  cases c with
  | subtransaction o' a =>
    obtain rfl := Option.some.inj hc
    obtain ⟨x, hx⟩ := alive hl.1.1
    exact noticed_of_check fun E hE => by
      simpa only [perform, subtransaction, wp_bind, wp_check_outOfOrder hx ho] using hE
  | pipeline o' a =>
    obtain rfl := Option.some.inj hc
    obtain ⟨x, hx⟩ := alive hl.1.1
    exact noticed_of_check fun E hE => by
      simpa only [perform, pipeline, wp_bind, wp_check_outOfOrder hx ho] using hE
  | send o' u =>
    obtain rfl := Option.some.inj hc
    obtain ⟨x, hx⟩ := alive hl
    exact noticed_of_check fun E hE => by
      simpa only [perform, send, wp_bind, wp_check_outOfOrder hx ho] using hE
  | setSingleRowMode o' =>
    obtain rfl := Option.some.inj hc
    obtain ⟨x, hx⟩ := alive hl
    exact noticed_of_check fun E hE => by
      simpa only [perform, setSingleRowMode, wp_bind, wp_check_outOfOrder hx ho] using hE
  | setChunkMode o' rows =>
    obtain rfl := Option.some.inj hc
    obtain ⟨x, hx⟩ := alive hl
    exact noticed_of_check fun E hE => by
      simpa only [perform, setChunkMode, wp_bind, wp_check_outOfOrder hx ho] using hE
  | getResult o' =>
    obtain rfl := Option.some.inj hc
    obtain ⟨x, hx⟩ := alive hl
    exact noticed_of_check fun E hE => by
      simpa only [perform, ignore, getResult, wp_bind, wp_check_outOfOrder hx ho] using hE
  | consumePipelineSync o' =>
    obtain rfl := Option.some.inj hc
    obtain ⟨x, hx⟩ := alive hl
    exact noticed_of_check fun E hE => by
      simpa only [perform, consumePipelineSync, wp_bind, wp_check_outOfOrder hx ho] using hE
  | execute o' u =>
    obtain rfl := Option.some.inj hc
    obtain ⟨x, hx⟩ := alive hl.1
    exact noticed_of_check fun E hE => by
      simpa only [perform, ignore, execute, send, wp_bind, wp_check_outOfOrder hx ho] using hE
  | commit o' =>
    obtain rfl := Option.some.inj hc
    obtain ⟨x, hx⟩ := alive hl.1
    rw [noticed_iff_wp, Call.NoticedWhen]
    simp only [hx, Option.some.injEq, forall_eq']
    exact endWith_outOfOrder hx ho _ fun s' hs' => ⟨⟨_, rfl⟩, by rw [hs']⟩
  | rollback o' =>
    obtain rfl := Option.some.inj hc
    obtain ⟨x, hx⟩ := alive hl.1
    rw [noticed_iff_wp, Call.NoticedWhen]
    simp only [hx, Option.some.injEq, forall_eq']
    exact endWith_outOfOrder hx ho _ fun s' hs' => ⟨⟨_, rfl⟩, by rw [hs']⟩
  | sync o' =>
    refine iff_false_intro (not_noticed ?_)
    simp only [perform, pipelineSync, wp_bind]
    refine wp_derefConnection o' fun _ _ _ => ?_
    simp only [wp_onConnection, Connection.pipelineSync, Connection.libpqOr, wp_bind, wp_libpq, wp_ite, wp_pure,
      wp_throw, implies_true, true_and]
    rintro _ ⟨what, he⟩
    cases he
  | consumeSync o' =>
    obtain ⟨x, hx⟩ := Option.isSome_iff_exists.1 (h.owned.alive o' (.inl hl.1))
    exact consumeSync_noticed hx (h.owned.pipelines o' x hx (hl.2 x hx))
  | tableReader o' g b u =>
    obtain rfl := Option.some.inj hc
    exact iff_false_intro (not_noticed (wp_mono newBulk_calls (fun _ _ => id) fun _ _ h _ => h))
  | tableWriter o' g b u =>
    obtain rfl := Option.some.inj hc
    exact iff_false_intro (not_noticed (wp_mono newBulk_calls (fun _ _ => id) fun _ _ h _ => h))
  | _ => cases hc

theorem noticed_commit_outer : ∃ s : State Unit, Reachable .calm s ∧ s.current = some 2 ∧
    (Noticed .calm s (.commit 1) ↔ (.commit 1 : Call Unit).NoticedWhen s) := by
  obtain ⟨s, hs, hc, hl⟩ := Reaches.of_trace .calm (fun _ _ => True)
    [.transaction 1 .defaultIsolationLevel .defaultAccessMode, .subtransaction 1 2] ()
    (P := fun s => s.current = some 2 ∧ (Call.commit 1).Legal s) (by decide +kernel)
  refine ⟨s, hs, hc, noticed_iff (o := 1) hs hl rfl fun x _ h => ?_⟩
  simp [hc] at h

/-- A table writer over the outer transaction is constructed while there is an inner one, and nothing is noticed. -/
theorem writer_over_outer_not_noticed : ∃ (s : State Unit) (c : Call Unit), Reachable .calm s ∧ c.Legal s ∧
    c.through = some 1 ∧ s.current = some 2 ∧ s.OutOfOrder 1 ∧ ¬ Noticed .calm s c := by
  obtain ⟨s, hs, hc, hl⟩ := Reaches.of_trace .calm (fun _ _ => True)
    [.transaction 1 .defaultIsolationLevel .defaultAccessMode, .subtransaction 1 2] ()
    (P := fun s => s.current = some 2 ∧
      (Call.tableWriter 1 3 0 ⟨"COPY t FROM STDIN", .copyFrom (fun _ db => some db) List.length⟩).Legal s)
    (by decide +kernel)
  refine ⟨s, _, hs, hl, rfl, hc, fun x _ h => ?_, ?_⟩
  · simp [hc] at h
  · exact not_noticed (wp_mono newBulk_calls (fun _ _ => id) fun _ _ h _ => h)

end Noticed

/-! ### What a rejected `commit` or `rollback` leaves behind -/

/-- The call throws `std::logic_error`, and the current transaction, the connections of the objects and the session of
the server are as before. -/
def Harmless (x : Prog DB Unit) (s : State DB) : Prop :=
  ∃ what s', x s = .throw (.logicError what) s' ∧ s'.current = s.current ∧
    (∀ a, (s'.object a).map Object.connected = (s.object a).map Object.connected) ∧
    s'.conn.pg.session = s.conn.pg.session

section Harmless

variable {W : World} {s : State DB} {o : Addr} {x : Object}

/-- A rejected call on an object that was not ended ends it, and makes current what is below it. -/
theorem endWith_rejected (hx : s.object o = some x) (hc : x.connected = true) (ht : s.current ≠ some o)
    (y : Prog DB Unit) : endWith o y s = .throw (.logicError "invalid transaction order") (s.ended o x) := by
  have hrejected : wp False (endWith o y) (fun _ _ => False)
      (fun e s' => e = .logicError "invalid transaction order" ∧ s' = s.ended o x) s := by
    have hout : s.OutOfOrder o := fun _ _ h => ht h.2
    rw [endWith, wp_bind, wp_catchAll, wp_bind, wp_check_outOfOrder hx hout, wp_bind, wp_vReset hx hc]
    exact ⟨rfl, rfl⟩
  obtain ⟨_, _, hthrow, rfl, rfl⟩ := exists_throw hrejected
  exact hthrow

/-- A call on an object that was ended already follows a null pointer. -/
theorem endWith_again (hx : s.object o = some x) (hc : x.connected = false) (y : Prog DB Unit) :
    endWith o y s = .undefined := by
  have hout : s.OutOfOrder o := by
    intro z hz h
    obtain rfl := Option.some.inj (hx.symm.trans hz)
    rw [hc] at h
    exact absurd h.1 Bool.false_ne_true
  refine eq_undefined ?_
  rw [endWith, wp_bind, wp_catchAll, wp_bind, wp_check_outOfOrder hx hout, wp_bind]
  simp [vReset, derefConnection, hx, hc]

theorem endWith_harms (hx : s.object o = some x) (ht : s.current ≠ some o) (y : Prog DB Unit) :
    ¬ Harmless (endWith o y) s := by
  rintro ⟨what, s', hs, -, hobjects, -⟩
  cases hc : x.connected with
  | true =>
    rw [endWith_rejected hx hc ht] at hs
    cases hs
    have hended : (s.ended o x).object o = some { x with connected := false } :=
      (State.object_insert s o _ o).trans (if_pos rfl)
    have ho := hobjects o
    rw [hx, hended] at ho
    simp [hc] at ho
  | false =>
    rw [endWith_again hx hc] at hs
    cases hs

/-- A `commit` or `rollback` that is rejected is never without harm: an object that was not ended before is ended, and
otherwise the behaviour is undefined. -/
theorem rejected_end_harms (h : Reachable W s) (ho : s.holdsTransaction o) (ht : s.current ≠ some o) :
    ¬ Harmless (commit W o) s ∧ ¬ Harmless (rollback W o) s := by
  obtain ⟨x, hx⟩ := Option.isSome_iff_exists.1 (h.owned.alive o (.inl ho.1))
  exact ⟨endWith_harms hx ht _, endWith_harms hx ht _⟩

theorem rejected_end_harms_inner : ∃ s : State Unit, Reachable .calm s ∧ s.current = some 2 ∧
    ¬ Harmless (commit .calm 1) s ∧ ¬ Harmless (rollback .calm 1) s := by
  obtain ⟨s, hs, hc, ho⟩ := Reaches.of_trace .calm (fun _ _ => True)
    [.transaction 1 .defaultIsolationLevel .defaultAccessMode, .subtransaction 1 2] ()
    (P := fun s => s.current = some 2 ∧ s.holdsTransaction 1) (by decide +kernel)
  exact ⟨s, hs, hc, rejected_end_harms hs ho (by simp [hc])⟩

/-- The outer transaction is committed while there is an inner one: the call is rejected, but the outer transaction is
ended, and no transaction is current, although the inner one is not ended. -/
theorem outer_commit_harms : ∃ s : State Unit, Reachable .calm s ∧ s.holdsTransaction 1 ∧ s.current = some 2 ∧
    ¬ Harmless (commit .calm 1) s ∧
    ∃ s', commit .calm 1 s = .throw (.logicError "invalid transaction order") s' ∧ s'.current = none ∧
      s'.object 1 = some ⟨.topLevelTransaction, false⟩ := by
  obtain ⟨s, hs, hc, ho, hx⟩ := Reaches.of_trace .calm (fun _ _ => True)
    [.transaction 1 .defaultIsolationLevel .defaultAccessMode, .subtransaction 1 2] ()
    (P := fun s => s.current = some 2 ∧ s.holdsTransaction 1 ∧ s.object 1 = some ⟨.topLevelTransaction, true⟩)
    (by decide +kernel)
  have ht : s.current ≠ some 1 := by simp [hc]
  exact ⟨s, hs, ho, hc, endWith_harms hx ht _, _, endWith_rejected hx rfl ht _, rfl,
    (State.object_insert s 1 _ 1).trans (if_pos rfl)⟩

end Harmless

end TaoPQ
