import TaoPQ.Answers
import TaoPQ.Ownership

/-!
# Destroying an object always succeeds

In every run, a reference to a living object can be released: the destructors that run then have no undefined
behaviour, and let no exception out (`release_returns`).  While a result is unread, they do not talk to the server
(`release_silent`).
-/

namespace TaoPQ

open Exec

variable {DB : Type} {W : World} {s : State DB} {a x : Addr} {o : Object}

/-! ### Talking to the server is defined -/

namespace Connection

theorem libpqOr_total (call : LibpqCall) (f : PGconn DB → PGconn DB × Bool) (e : Exn) : Total (libpqOr call f e) :=
  .bind (fun _ => trivial) fun _ => .ite (.pure ()) (.throw e)

theorem wait_total : Total (wait W : Exec (Connection DB) Exn Unit) := by
  intro c
  unfold Defined wp wait
  cases W.wait c.pg.clock <;> exact trivial

theorem waitWhen_total (busy : PGconn DB → Bool) : Total (waitWhen W busy) :=
  .bind .get fun _ => .ite wait_total (.pure ())

theorem getResult_total : Total (getResult W : Exec (Connection DB) Exn (Option PGresult)) := by
  refine .bind (waitWhen_total _) fun _ => .bind (fun _ => trivial) fun _ => .bind (fun c => ?_) fun _ => .pure _
  unfold Defined wp handleNotifications
  split <;> exact trivial

/-- What is taken for an error is one. -/
theorem wp_getFatalError_status (c : Connection DB) :
    wp False (getFatalError W) (fun r _ => r.status = .fatalError) (fun _ _ => True) c := by
  simp only [getFatalError, wp_bind]
  refine wp_mono (getResult_total c) (fun r c' _ => ?_) (fun _ _ => id)
  cases r with
  | none => exact trivial
  | some r =>
    simp only [wp_ite, wp_pure, wp_throw, implies_true, and_true]
    exact id

theorem getFatalError_total : Total (getFatalError W : Exec (Connection DB) Exn PGresult) := fun c =>
  wp_mono (wp_getFatalError_status c) (fun _ _ _ => trivial) fun _ _ => id

theorem consumeEmptyResult_total : Total (consumeEmptyResult W : Exec (Connection DB) Exn Unit) :=
  .bind getResult_total fun r => by
    cases r with
    | none => exact .pure ()
    | some r => exact .throw _

theorem getCopyData_total : Total (getCopyData W : Exec (Connection DB) Exn (Option Chunk)) :=
  .bind (waitWhen_total _) fun _ => .bind (fun _ => trivial) fun d => by
    cases d with
    | row data => exact .pure _
    | done => exact .pure _
    | failed => exact .throw _

theorem clearCopyDataLoop_total (n : Nat) : Total (clearCopyDataLoop W n : Exec (Connection DB) Exn Unit) := by
  induction n with
  | zero => exact .pure ()
  | succ n ih =>
    refine .bind getCopyData_total fun d => ?_
    cases d with
    | none => exact .pure ()
    | some d => exact ih

/-- A result that is no COPY can be handed to the program. -/
theorem result_defined {r : PGresult} (hi : r.status ≠ .copyIn) (ho : r.status ≠ .copyOut) (c : Connection DB) :
    Defined (result r) c := by
  unfold result
  cases hs : r.status with
  | copyIn => exact absurd hs hi
  | copyOut => exact absurd hs ho
  | _ => exact trivial

theorem fetchResult_total : Total (fetchResult W : Exec (Connection DB) Exn PGresult) := by
  refine .bind getResult_total fun r => ?_
  cases r with
  | none => exact .throw _
  | some r =>
    dsimp only
    split
    · refine .bind (.bind (waitWhen_total _) fun _ => libpqOr_total _ _ _) fun _ c => ?_
      rw [Defined, wp_bind]
      -- what ends a COPY FROM is an error, so that it is no COPY
      refine wp_mono (wp_getFatalError_status c) (fun r c' hr => ?_) (fun _ _ => id)
      refine Total.bind consumeEmptyResult_total (fun _ => result_defined ?_ ?_) c' <;> simp [hr]
    · exact .bind (libpqOr_total _ _ _) fun _ => .bind (.bind .get fun _ => clearCopyDataLoop_total _) fun _ =>
        .bind getFatalError_total fun _ => .bind consumeEmptyResult_total fun _ => .throw _
    · rename_i hs
      exact result_defined (by simp [hs]) (by simp [hs])
    · rename_i hs
      exact result_defined (by simp [hs]) (by simp [hs])
    · rename_i hi ho _ _
      exact .bind consumeEmptyResult_total fun _ => result_defined hi ho

theorem sendParams_total (cmd : Command DB) : Total (sendParams W cmd) := .bind .get fun _ => libpqOr_total _ _ _

theorem attemptRollback_returns (c : Connection DB) : Returns attemptRollback c := by
  simp only [attemptRollback, transactionStatus, wp_bind, wp_libpq]
  cases c.pg.transactionStatus <;> exact trivial

end Connection

theorem onConnection_defined {α : Type} {x : Exec (Connection DB) Exn α} (hx : Total x) (s : State DB) :
    Defined (onConnection x) s := by
  rw [Defined, wp_onConnection]
  exact hx s.conn

/-- A statement of an object that is alive. -/
theorem execute_defined (cmd : Command DB) (ha : (s.object a).isSome) : Defined (execute W a cmd) s := by
  obtain ⟨o, ho⟩ := Option.isSome_iff_exists.1 ha
  simp only [execute, send, getResult, wp_bind, wp_checkCurrentTransaction, ho, Option.some.injEq, forall_eq',
    reduceCtorEq, false_implies, and_true, implies_true]
  intro hcurrent
  rw [wp_onConnection]
  refine wp_mono (Connection.sendParams_total cmd s.conn) (fun _ c _ => ?_) (fun _ _ => id)
  refine ⟨fun x hx _ => onConnection_defined Connection.fetchResult_total _, fun hn => ?_⟩
  exact absurd (ho.symm.trans hn) (by simp)

/-! ### Who stays alive -/

/-- An object that was alive still is. -/
def Spares (x : Addr) (s s' : State DB) : Prop := (s.object x).isSome → (s'.object x).isSome

instance (x : Addr) : IsPreorder (State DB) (Spares x) where
  refl _ := id
  trans _ _ _ h h' := fun hx => h' (h hx)

namespace Spares

theorem put (a : Addr) (o : Object) (s : State DB) : Spares x s { s with objects := s.objects.insert a o } := by
  intro hx
  rw [State.object_insert]
  split
  · rfl
  · exact hx

theorem of_keepsHeap {α : Type} {y : Prog DB α} (hy : KeepsHeap y) : Follows (Spares x) y :=
  Follows.mono hy fun s s' h => by
    obtain ⟨c, rfl⟩ := h
    exact id

theorem setCurrent (p : Option Addr) : Follows (Spares x) (TaoPQ.setCurrent p : Prog DB Unit) := fun _ => id

theorem putObject (a : Addr) (o : Object) : Follows (Spares x) (TaoPQ.putObject a o : Prog DB Unit) := fun s =>
  put a o s

theorem vReset (a : Addr) : Follows (Spares x) (TaoPQ.vReset a : Prog DB Unit) :=
  .bind (of_keepsHeap (.derefConnection a)) fun _ => .bind (of_keepsHeap (.deref a)) fun _ =>
    .bind (setCurrent _) fun _ => putObject a _

theorem deregister (a : Addr) : Follows (Spares x) (TaoPQ.deregister a : Prog DB Unit) :=
  .bind (of_keepsHeap (.deref a)) fun _ => .ite (setCurrent _) (.pure ())

theorem rollbackInDtor (a : Addr) : Follows (Spares x) (TaoPQ.rollbackInDtor W a : Prog DB Unit) :=
  .bind (.catchAll (of_keepsHeap (.bind (.checkCurrentTransaction a) fun _ => .vRollback W a))
    fun _ => of_keepsHeap (.derefConnection a)) fun _ => vReset a

theorem attemptRollbackInDtor (a : Addr) : Follows (Spares x) (TaoPQ.attemptRollbackInDtor W a : Prog DB Unit) :=
  .bind (of_keepsHeap (.deref a)) fun _ => .ite
    (.bind (of_keepsHeap (.onConnection _)) fun _ => .ite (rollbackInDtor a) (.pure ())) (.pure ())

end Spares

/-- What is asked of the release of a reference, for the destructors that call it: nothing else that has no owner is
destroyed. -/
private abbrev ReleaseSpares (release : Addr → Prog DB Unit) : Prop :=
  ∀ (a x : Addr) (s : State DB), s.Owned → ¬ s.Owns x → x ≠ a → Leaves (release a) (Spares x s) s

private theorem destructor_spares {release : Addr → Prog DB Unit} (hr : ReleaseSpares release) (h : s.Owned)
    (hx : ¬ s.Owns x) : Leaves (destructor W release a) (Spares x s) s := by
  simp only [destructor, wp_bind, wp_deref, implies_true, and_true]
  intro o ho
  cases hrole : o.role with
  | autocommitTransaction => exact Spares.deregister a s
  | topLevelTransaction => exact Follows.bind (Spares.attemptRollbackInDtor a) (fun _ => Spares.deregister a) s
  | topLevelSubtransaction p => exact Follows.bind (Spares.attemptRollbackInDtor a) (fun _ => Spares.deregister a) s
  | nestedSubtransaction p => exact Follows.bind (Spares.attemptRollbackInDtor a) (fun _ => Spares.deregister a) s
  | transactionGuard p => exact Spares.deregister a s
  | pipeline p =>
    simp only [wp_catchAll, wp_pure, finishWith, wp_bind, wp_deref, ho, Option.some.injEq, forall_eq', hrole,
      implies_true, and_true]
    cases p with
    | none => exact id
    | some p =>
      simp only [wp_bind, wp_setCurrent, wp_putObject, wp_andFinally]
      have hl := (h.current (some p)).trans ((h.current (some p)).1.change { o with role := .pipeline none } ho
        (fun q hq => by cases hq) fun _ => h.pipelines a o ho (by rw [hrole]; rfl))
      refine (KeepsHeap.onConnection _).leaves fun c => ?_
      have hc := hl.trans (hl.1.conn c)
      -- the object below is owned by this one, so it is not `x`
      have hne : x ≠ p := by
        rintro rfl
        exact hx (.inr (.inl ⟨a, o, ho, by rw [hrole]; rfl⟩))
      exact (hr p x _ hc.1 (fun hn => hx (hc.2 x hn)) hne).mono fun _ hs hsome => hs (Spares.put a _ _ hsome)

private theorem releaseN_spares (n : Nat) : ReleaseSpares (releaseN W n : Addr → Prog DB Unit) := by
  induction n with
  | zero => exact fun _ _ _ _ _ _ => id
  | succ n ih =>
    intro a x s h hx hne
    simp only [releaseN, wp_bind, wp_get, wp_ite, wp_deref, wp_eraseObject, wp_pure, implies_true, and_true]
    refine ⟨fun hu => ?_, fun _ => id⟩
    have hu := (s.unowned_eq_true a).1 hu
    refine wp_mono (wp_and (destructor_owned (releaseN_owned n) h) (destructor_spares ih h hx)) ?_ (fun _ _ hs => hs.2)
    rintro _ s' ⟨hl, hs⟩ o ho
    have herased := hl.trans (hl.1.erase fun ha => hu (hl.2 a ha))
    have hspares : Spares x s { s' with objects := s'.objects.erase a } := by
      intro hsome
      rw [State.object_erase, if_neg hne]
      exact hs hsome
    cases hp : o.role.previous with
    | none => exact hspares
    | some p =>
      have hnp : x ≠ p := by
        rintro rfl
        exact hx (hl.2 x (.inr (.inl ⟨a, o, ho, hp⟩)))
      exact (ih p x _ herased.1 (fun hn => hx (herased.2 x hn)) hnp).mono fun _ hs' hsome => hs' (hspares hsome)

/-! ### Destructors return -/

private theorem vReset_returns (ho : s.object a = some o) (hc : o.connected = true) : Returns (vReset a) s := by
  rw [Returns, wp_vReset ho hc]
  exact trivial

private theorem deregister_returns (ho : s.object a = some o) : Returns (deregister a) s := by
  simp [Returns, deregister, ho]

theorem control_defined (ho : s.object a = some o) (k : Control) :
    Defined (do let _ ← execute W a (.control k)) s := by
  rw [Defined, wp_bind]
  exact wp_mono (execute_defined _ (by simp [ho])) (fun _ _ _ => trivial) fun _ _ => id

theorem vRollback_defined (ho : s.object a = some o) : Defined (vRollback W a) s := by
  have hexec (k : Control) : Defined (do let _ ← execute W a (.control k)) s := control_defined ho k
  simp only [Defined, vRollback, wp_bind, wp_deref, ho, Option.some.injEq, forall_eq', reduceCtorEq, false_implies,
    and_true]
  cases o.role with
  | topLevelTransaction => exact hexec _
  | topLevelSubtransaction p => exact hexec _
  | nestedSubtransaction p => exact hexec _
  | _ => exact trivial

/-- Code that only talks to the connection, and is defined. -/
theorem KeepsHeap.wp_of_defined {α : Type} {y : Prog DB α} (hy : KeepsHeap y) (hd : Defined y s)
    {Q : α → State DB → Prop} {E : Exn → State DB → Prop} (hQ : ∀ v c, Q v { s with conn := c })
    (hE : ∀ e c, E e { s with conn := c }) : wp False y Q E s :=
  Exec.wp_of_defined hd (hy.wp_of hQ hE)

private theorem rollbackInDtor_returns (ho : s.object a = some o) (hc : o.connected = true) :
    Returns (rollbackInDtor W a) s := by
  have hdefined : Defined (do checkCurrentTransaction a; vRollback W a) s := by
    simp only [Defined, wp_bind, wp_checkCurrentTransaction, ho, Option.some.injEq, forall_eq', reduceCtorEq,
      false_implies, and_true, implies_true]
    exact fun _ => vRollback_defined ho
  simp only [Returns, rollbackInDtor, wp_bind, wp_catchAll]
  rw [← wp_bind]
  refine (KeepsHeap.bind (.checkCurrentTransaction a) fun _ => .vRollback W a).wp_of_defined hdefined
    (fun _ c => vReset_returns ho hc) fun _ c => ?_
  have hobject : ({ s with conn := c } : State DB).object a = some o := ho
  simp only [derefConnection, wp_bind, wp_deref, hobject, Option.some.injEq, forall_eq', hc, ↓reduceIte, wp_pure,
    reduceCtorEq, false_implies, and_true]
  exact vReset_returns ho hc

private theorem attemptRollbackInDtor_returns (ho : s.object a = some o) : Returns (attemptRollbackInDtor W a) s := by
  simp only [Returns, attemptRollbackInDtor, wp_bind, wp_deref, ho, Option.some.injEq, forall_eq', wp_ite, wp_pure,
    implies_true, reduceCtorEq, false_implies, and_true]
  intro hc
  rw [wp_onConnection]
  exact wp_mono (Connection.attemptRollback_returns s.conn)
    (fun _ c _ _ => rollbackInDtor_returns (s := { s with conn := c }) ho hc) fun _ _ => id

private abbrev ReleaseReturns (release : Addr → Prog DB Unit) : Prop :=
  ∀ (a : Addr) (s : State DB), s.Owned → (s.object a).isSome → Returns (release a) s

private theorem destructor_returns {release : Addr → Prog DB Unit} (hr : ReleaseReturns release) (h : s.Owned)
    (ha : (s.object a).isSome) : Returns (destructor W release a) s := by
  obtain ⟨o, ho⟩ := Option.isSome_iff_exists.1 ha
  have ended : Returns (do attemptRollbackInDtor W a; deregister a) s := by
    rw [Returns, wp_bind]
    refine wp_of_returns (attemptRollbackInDtor_returns ho)
      (E := fun _ _ => True)
      (wp_mono (Spares.attemptRollbackInDtor (x := a) a s) (fun _ s' hs => ?_) (fun _ _ _ => trivial))
    obtain ⟨o', ho'⟩ := Option.isSome_iff_exists.1 (hs ha)
    exact deregister_returns ho'
  simp only [Returns, destructor, wp_bind, wp_deref, ho, Option.some.injEq, forall_eq', reduceCtorEq, false_implies,
    and_true]
  cases hrole : o.role with
  | autocommitTransaction => exact deregister_returns ho
  | topLevelTransaction => exact ended
  | topLevelSubtransaction p => exact ended
  | nestedSubtransaction p => exact ended
  | transactionGuard p => exact deregister_returns ho
  | pipeline p =>
    simp only [wp_catchAll, wp_pure, finishWith, wp_bind, wp_deref, ho, Option.some.injEq, forall_eq', hrole,
      reduceCtorEq, false_implies, and_true]
    cases p with
    | none => exact trivial
    | some p =>
      simp only [wp_bind, wp_setCurrent, wp_putObject, wp_andFinally]
      have hl := (h.current (some p)).trans ((h.current (some p)).1.change { o with role := .pipeline none } ho
        (fun q hq => by cases hq) fun _ => h.pipelines a o ho (by rw [hrole]; rfl))
      have hp : (s.object p).isSome := h.alive p (.inr (.inl ⟨a, o, ho, by rw [hrole]; rfl⟩))
      have hrelease (c : Connection DB) := hr p _ (hl.1.conn c).1 (Spares.put a { o with role := .pipeline none } _ hp)
      refine (KeepsHeap.onConnection _).wp_of_defined (onConnection_defined (Connection.libpqOr_total _ _ _) _)
        (fun _ c => ?_) fun _ c => ?_
      · exact wp_mono (hrelease c) (fun _ _ => id) fun _ _ => False.elim
      · exact wp_mono (hrelease c) (fun _ _ => id) fun _ _ => False.elim

private theorem releaseN_returns (n : Nat) : ReleaseReturns (releaseN W n : Addr → Prog DB Unit) := by
  induction n with
  | zero => exact fun _ _ _ _ => trivial
  | succ n ih =>
    intro a s h ha
    simp only [Returns, releaseN, wp_bind, wp_get, wp_ite, wp_pure, implies_true, and_true]
    intro hu
    have hu := (s.unowned_eq_true a).1 hu
    refine wp_of_returns (destructor_returns ih h ha) (E := fun _ _ => True)
      (wp_mono (wp_and (destructor_owned (releaseN_owned n) h) (destructor_spares (releaseN_spares n) h hu)) ?_
        (fun _ _ _ => trivial))
    rintro _ s' ⟨hl, hs⟩
    obtain ⟨o, ho⟩ := Option.isSome_iff_exists.1 (hs ha)
    simp only [wp_deref, ho, Option.some.injEq, forall_eq', wp_eraseObject, reduceCtorEq, false_implies, and_true]
    cases hp : o.role.previous with
    | none => exact trivial
    | some p =>
      -- the object below was kept alive by the one that is gone
      have howned : s'.Owns p := .inr (.inl ⟨a, o, ho, hp⟩)
      have hne : p ≠ a := by
        rintro rfl
        exact hu (hl.2 p howned)
      refine ih p _ (hl.1.erase fun hn => hu (hl.2 a hn)).1 ?_
      rw [State.object_erase, if_neg hne]
      exact hl.1.alive p howned

/-- A reference to a living object can be released, and this lets no exception out. -/
theorem release_returns (h : s.Owned) (ha : (s.object a).isSome) : Returns (release W a) s := by
  simp only [Returns, release, wp_bind, wp_get]
  exact releaseN_returns _ a s h ha

/-! ### While a result is unread -/

/-- Nothing was sent and nothing was read, and the table readers and writers are as before. -/
def Silent (s s' : State DB) : Prop := s'.conn.pg = s.conn.pg ∧ s'.bulks = s.bulks

/-- The connection is open, and something is to be read. -/
def State.Unread (s : State DB) : Prop := s.conn.pg.isOpen = true ∧ s.conn.pg.stream ≠ []

theorem Silent.refl (s : State DB) : Silent s s := ⟨rfl, rfl⟩

theorem Silent.trans {s' s'' : State DB} (h : Silent s s') (h' : Silent s' s'') : Silent s s'' :=
  ⟨h'.1.trans h.1, h'.2.trans h.2⟩

theorem Silent.unread {s' : State DB} (h : Silent s s') (hs : s.Unread) : s'.Unread := by
  unfold State.Unread
  rw [h.1]
  exact hs

private theorem deregister_silent : Leaves (deregister a) (Silent s) s := by
  simp only [deregister, wp_bind, wp_deref, wp_ite, wp_setCurrent, wp_pure, implies_true, and_true]
  exact fun o _ => ⟨fun _ => ⟨rfl, rfl⟩, fun _ => .refl s⟩

/-- No rollback is attempted. -/
private theorem attemptRollbackInDtor_silent (hs : s.Unread) : Leaves (attemptRollbackInDtor W a) (Silent s) s := by
  simp only [attemptRollbackInDtor, wp_bind, wp_deref, wp_ite, wp_pure, implies_true, and_true]
  refine fun o _ => ⟨fun _ => ?_, fun _ => .refl s⟩
  have hno : (!s.conn.pg.isOpen || s.conn.pg.stream.isEmpty && s.conn.pg.session.block.isSome) = false := by
    simp [hs.1, hs.2]
  rw [wp_onConnection, Connection.wp_attemptRollback, hno]
  exact ⟨fun h => (Bool.false_ne_true h).elim, fun _ => ⟨rfl, rfl⟩⟩

private abbrev ReleaseSilent (release : Addr → Prog DB Unit) : Prop :=
  ∀ (a : Addr) (s : State DB), s.Unread → Leaves (release a) (Silent s) s

/-- Pipeline mode can not be left. -/
private theorem finishWith_silent {release : Addr → Prog DB Unit} (hr : ReleaseSilent release) (hs : s.Unread) :
    Leaves (finishWith release a) (Silent s) s := by
  simp only [finishWith, wp_bind, wp_deref, implies_true, and_true]
  intro o _
  split
  · rename_i p _
    have hexit : s.conn.pg.exitPipelineMode = (s.conn.pg, false) := by
      simp [PGconn.exitPipelineMode, hs.1, hs.2]
    simp only [wp_bind, wp_setCurrent, wp_putObject, wp_andFinally, wp_onConnection, Connection.exitPipelineMode,
      Connection.libpqOr, wp_libpq, hexit, Bool.false_eq_true, ↓reduceIte, wp_throw]
    exact Leaves.mono (hr p { s with conn := _, current := _, objects := _ } hs) fun _ => id
  · exact .refl s

private theorem destructor_silent {release : Addr → Prog DB Unit} (hr : ReleaseSilent release) (hs : s.Unread) :
    Leaves (destructor W release a) (Silent s) s := by
  have ended : Leaves (do attemptRollbackInDtor W a; deregister a) (Silent s) s := by
    rw [leaves_bind]
    refine wp_mono (attemptRollbackInDtor_silent hs) (fun _ s' hl => ?_) (fun _ _ => id)
    exact deregister_silent.mono fun _ => hl.trans
  simp only [destructor, wp_bind, wp_deref, implies_true, and_true]
  intro o _
  cases o.role with
  | autocommitTransaction => exact deregister_silent
  | topLevelTransaction => exact ended
  | topLevelSubtransaction p => exact ended
  | nestedSubtransaction p => exact ended
  | transactionGuard p => exact deregister_silent
  | pipeline p =>
    simp only [wp_catchAll, wp_pure]
    exact finishWith_silent hr hs

private theorem releaseN_silent (n : Nat) : ReleaseSilent (releaseN W n : Addr → Prog DB Unit) := by
  induction n with
  | zero => exact fun _ s _ => .refl s
  | succ n ih =>
    intro a s hs
    simp only [releaseN, wp_bind, wp_get, wp_ite, wp_deref, wp_eraseObject, wp_pure, implies_true, and_true]
    refine ⟨fun _ => ?_, fun _ => .refl s⟩
    refine wp_mono (destructor_silent ih hs) (fun _ s' hl o _ => ?_) (fun _ _ => id)
    cases o.role.previous with
    | none => exact hl
    | some p => exact Leaves.mono (ih p { s' with objects := _ } (hl.unread hs)) fun _ => hl.trans

/-- While a result is unread, releasing a reference does not touch the connection. -/
theorem release_silent (hs : s.Unread) : Leaves (release W a) (Silent s) s := by
  simp only [release, wp_bind, wp_get]
  exact releaseN_silent _ a s hs

end TaoPQ
