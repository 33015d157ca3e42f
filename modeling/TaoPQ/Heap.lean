import TaoPQ.Program
import TaoPQ.Lib.Follows

/-!
# Rules for pointers and objects

Weakest preconditions of the operations on the heap of `TaoPQ.Transaction`, and what `execute` and its parts leave
alone: they talk to the connection, and change neither the objects nor their owners (`KeepsHeap`).
-/

namespace TaoPQ

open Exec

variable {DB : Type} {ub : Prop} {s : State DB}

/-! ### The heap -/

namespace State

theorem object_insert (s : State DB) (a : Addr) (o : Object) (x : Addr) :
    ({ s with objects := s.objects.insert a o } : State DB).object x = if x = a then some o else s.object x := by
  by_cases h : x = a
  · subst h
    simp [object]
  · simp [object, h, AList.lookup_insert_ne]

theorem object_erase (s : State DB) (a x : Addr) :
    ({ s with objects := s.objects.erase a } : State DB).object x = if x = a then none else s.object x := by
  by_cases h : x = a
  · subst h
    simp [object]
  · simp [object, h, AList.lookup_erase_ne]

theorem bulk_insert (s : State DB) (b : Nat) (k : Bulk) (x : Nat) :
    ({ s with bulks := s.bulks.insert b k } : State DB).bulk x = if x = b then some k else s.bulk x := by
  by_cases h : x = b
  · subst h
    simp [bulk]
  · simp [bulk, h, AList.lookup_insert_ne]

theorem mem_keys {s : State DB} {a : Addr} {o : Object} (h : s.object a = some o) : a ∈ s.objects.keys :=
  AList.mem_keys.1 (AList.lookup_isSome.1 (by unfold object at h; simp [h]))

theorem mem_bulkKeys {s : State DB} {b : Nat} {k : Bulk} (h : s.bulk b = some k) : b ∈ s.bulks.keys :=
  AList.mem_keys.1 (AList.lookup_isSome.1 (by unfold bulk at h; simp [h]))

/-- There is a shared pointer to the object. -/
def Owns (s : State DB) (a : Addr) : Prop :=
  a ∈ s.held ∨ (∃ x o, s.object x = some o ∧ o.role.previous = some a) ∨
    ∃ b k, s.bulk b = some k ∧ (k.previous = some a ∨ k.transaction = some a)

theorem unowned_eq_true (s : State DB) (a : Addr) : s.unowned a = true ↔ ¬ s.Owns a := by
  simp only [unowned, Owns, Bool.and_eq_true, Bool.not_eq_true', List.contains_eq_mem, decide_eq_false_iff_not,
    List.all_eq_true, Option.all_eq_true, bne_iff_ne, ne_eq, not_or, not_exists, not_and, and_assoc]
  refine and_congr_right fun _ => and_congr ?_ ?_
  · exact ⟨fun h x o hx => h x (mem_keys hx) o hx, fun h x _ o hx => h x o hx⟩
  · exact ⟨fun h b k hb => h b (mem_bulkKeys hb) k hb, fun h b _ k hb => h b k hb⟩

end State

/-! ### Pointers -/

@[simp] theorem wp_deref (a : Addr) {Q : Object → State DB → Prop} {E : Exn → State DB → Prop} :
    wp ub (deref a) Q E s ↔ (∀ o, s.object a = some o → Q o s) ∧ (s.object a = none → ub) := by
  unfold wp deref
  rcases s.object a with _ | o <;> simp [Outcome.Sat]

@[simp] theorem wp_derefBulk (b : Nat) {Q : Bulk → State DB → Prop} {E : Exn → State DB → Prop} :
    wp ub (derefBulk b) Q E s ↔ (∀ k, s.bulk b = some k → Q k s) ∧ (s.bulk b = none → ub) := by
  unfold wp derefBulk
  rcases s.bulk b with _ | k <;> simp [Outcome.Sat]

@[simp] theorem wp_derefPointer_some (a : Addr) {Q : Addr → State DB → Prop} {E : Exn → State DB → Prop} :
    wp ub (derefPointer (some a)) Q E s ↔ ((s.object a).isSome → Q a s) ∧ (s.object a = none → ub) := by
  simp only [derefPointer, wp_bind, wp_deref, wp_pure]
  rcases s.object a with _ | o <;> simp

@[simp] theorem wp_derefPointer_none {Q : Addr → State DB → Prop} {E : Exn → State DB → Prop} :
    wp ub (derefPointer none) Q E s ↔ ub := Iff.rfl

theorem wp_derefConnection (a : Addr) {Q : Unit → State DB → Prop} {E : Exn → State DB → Prop}
    (hQ : ∀ o, s.object a = some o → o.connected = true → Q () s) : wp True (derefConnection a) Q E s := by
  simp only [derefConnection, wp_bind, wp_deref, wp_ite, wp_pure, wp_undefined, implies_true, and_true]
  exact hQ

@[simp] theorem wp_setCurrent (p : Option Addr) {Q : Unit → State DB → Prop} {E : Exn → State DB → Prop} :
    wp ub (setCurrent p) Q E s ↔ Q () { s with current := p } := Iff.rfl

@[simp] theorem wp_putObject (a : Addr) (o : Object) {Q : Unit → State DB → Prop} {E : Exn → State DB → Prop} :
    wp ub (putObject a o) Q E s ↔ Q () { s with objects := s.objects.insert a o } := Iff.rfl

@[simp] theorem wp_eraseObject (a : Addr) {Q : Unit → State DB → Prop} {E : Exn → State DB → Prop} :
    wp ub (eraseObject a) Q E s ↔ Q () { s with objects := s.objects.erase a } := Iff.rfl

@[simp] theorem wp_putBulk (b : Nat) (k : Bulk) {Q : Unit → State DB → Prop} {E : Exn → State DB → Prop} :
    wp ub (putBulk b k) Q E s ↔ Q () { s with bulks := s.bulks.insert b k } := Iff.rfl

@[simp] theorem wp_hold (a : Addr) {Q : Unit → State DB → Prop} {E : Exn → State DB → Prop} :
    wp ub (hold a) Q E s ↔ Q () { s with held := a :: s.held } := Iff.rfl

@[simp] theorem wp_onConnection {α : Type} (x : Exec (Connection DB) Exn α) {Q : α → State DB → Prop}
    {E : Exn → State DB → Prop} :
    wp ub (onConnection x) Q E s ↔
      wp ub x (fun v c => Q v { s with conn := c }) (fun e c => E e { s with conn := c }) s.conn := wp_zoom _ _ _

@[simp] theorem wp_libpq {β : Type} (call : LibpqCall) (f : PGconn DB → PGconn DB × β) {c : Connection DB}
    {Q : β → Connection DB → Prop} {E : Exn → Connection DB → Prop} :
    wp ub (Connection.libpq call f) Q E c ↔ Q (f c.pg).2 { c with pg := (f c.pg).1, calls := call :: c.calls } :=
  Iff.rfl

/-- The order check. -/
theorem wp_checkCurrentTransaction (a : Addr) {Q : Unit → State DB → Prop} {E : Exn → State DB → Prop} :
    wp ub (checkCurrentTransaction a) Q E s ↔
      (∀ o, s.object a = some o →
        (o.connected = true ∧ s.current = some a → Q () s) ∧
        (¬ (o.connected = true ∧ s.current = some a) → E (.logicError "invalid transaction order") s)) ∧
      (s.object a = none → ub) := by
  simp only [checkCurrentTransaction, wp_bind, wp_deref, wp_get, wp_ite, wp_pure, wp_throw]

/-- The state after an object was ended. -/
def State.ended (s : State DB) (a : Addr) (o : Object) : State DB :=
  { s with objects := s.objects.insert a { o with connected := false }, current := o.role.previous }

/-- An object whose connection is set is ended. -/
theorem wp_vReset {a : Addr} {o : Object} (ho : s.object a = some o) (hc : o.connected = true)
    {Q : Unit → State DB → Prop} {E : Exn → State DB → Prop} : wp ub (vReset a) Q E s ↔ Q () (s.ended a o) := by
  simp only [vReset, derefConnection, wp_bind, wp_deref, ho, Option.some.injEq, forall_eq', hc, wp_ite, wp_pure,
    wp_setCurrent, wp_putObject, not_true_eq_false, false_implies, reduceCtorEq, true_implies, and_true]
  rfl

/-- An object is reset on both ways out of the order check and the command that ends it. -/
theorem leaves_endWith (a : Addr) (x : Prog DB Unit) {P : State DB → Prop} :
    Leaves (endWith a x) P s ↔ Leaves (do checkCurrentTransaction a; x) (fun s => Leaves (vReset a) P s) s := by
  simp only [endWith, wp_bind, wp_catchAll, wp_throw]

/-- Nothing happens to an object that still has an owner. -/
theorem wp_releaseN_owns {W : World} (n : Nat) {a : Addr} (ha : s.Owns a) {Q : Unit → State DB → Prop}
    {E : Exn → State DB → Prop} (hQ : Q () s) : wp ub (releaseN W n a) Q E s := by
  have hu : s.unowned a = false := by
    by_contra hu
    exact (s.unowned_eq_true a).1 (by simpa using hu) ha
  cases n with
  | zero => exact hQ
  | succ n =>
    simp only [releaseN, wp_bind, wp_get, hu, Bool.false_eq_true, ↓reduceIte]
    exact hQ

theorem wp_release_owns {W : World} {a : Addr} (ha : s.Owns a) {Q : Unit → State DB → Prop}
    {E : Exn → State DB → Prop} (hQ : Q () s) : wp ub (release W a) Q E s := by
  simp only [release, wp_bind, wp_get]
  exact wp_releaseN_owns _ ha hQ

/-! ### Code that only talks to the connection -/

/-- Nothing but the connection has changed. -/
def SameHeap (s s' : State DB) : Prop := ∃ c, s' = { s with conn := c }

instance : IsPreorder (State DB) SameHeap where
  refl s := ⟨s.conn, rfl⟩
  trans := by
    rintro s _ _ ⟨c, rfl⟩ ⟨c', rfl⟩
    exact ⟨c', rfl⟩

/-- Nothing but the connection is changed. -/
def KeepsHeap {α : Type} (x : Prog DB α) : Prop := Follows SameHeap x

namespace KeepsHeap

variable {α β : Type}

theorem wp_of {x : Prog DB α} (h : KeepsHeap x) {Q : α → State DB → Prop} {E : Exn → State DB → Prop}
    (hQ : ∀ v c, Q v { s with conn := c }) (hE : ∀ e c, E e { s with conn := c }) : wp True x Q E s := by
  refine Follows.wp_of h ?_ ?_
  · rintro v _ ⟨c, rfl⟩
    exact hQ v c
  · rintro e _ ⟨c, rfl⟩
    exact hE e c

theorem leaves {x : Prog DB α} (h : KeepsHeap x) {P : State DB → Prop} {s : State DB}
    (hP : ∀ c, P { s with conn := c }) : Leaves x P s := h.wp_of (fun _ => hP) (fun _ => hP)

theorem onConnection (x : Exec (Connection DB) Exn α) : KeepsHeap (TaoPQ.onConnection x) := by
  intro s
  rw [wp_onConnection]
  exact wp_trivial (fun _ c => ⟨c, rfl⟩) (fun _ c => ⟨c, rfl⟩)

theorem pure (v : α) : KeepsHeap (Pure.pure v : Prog DB α) := Follows.pure v

theorem throw (e : Exn) : KeepsHeap (Exec.throw e : Prog DB α) := Follows.throw e

theorem bind {x : Prog DB α} {f : α → Prog DB β} (hx : KeepsHeap x) (hf : ∀ v, KeepsHeap (f v)) :
    KeepsHeap (x >>= f) := Follows.bind hx hf

theorem deref (a : Addr) : KeepsHeap (TaoPQ.deref a : Prog DB Object) := by
  intro s
  rw [wp_deref]
  exact ⟨fun _ _ => ⟨s.conn, rfl⟩, fun _ => trivial⟩

theorem checkCurrentTransaction (a : Addr) : KeepsHeap (TaoPQ.checkCurrentTransaction a : Prog DB Unit) := by
  intro s
  rw [wp_checkCurrentTransaction]
  exact ⟨fun _ _ => ⟨fun _ => ⟨s.conn, rfl⟩, fun _ => ⟨s.conn, rfl⟩⟩, fun _ => trivial⟩

variable (W : World)

theorem send (a : Addr) (cmd : Command DB) : KeepsHeap (TaoPQ.send W a cmd) :=
  bind (checkCurrentTransaction a) fun _ => onConnection _

theorem setSingleRowMode (a : Addr) : KeepsHeap (TaoPQ.setSingleRowMode a : Prog DB Unit) :=
  bind (checkCurrentTransaction a) fun _ => onConnection _

theorem setChunkMode (a : Addr) (rows : Int) : KeepsHeap (TaoPQ.setChunkMode a rows : Prog DB Unit) :=
  bind (checkCurrentTransaction a) fun _ => onConnection _

theorem getResult (a : Addr) : KeepsHeap (TaoPQ.getResult W a : Prog DB PGresult) :=
  bind (checkCurrentTransaction a) fun _ => onConnection _

theorem consumePipelineSync (a : Addr) : KeepsHeap (TaoPQ.consumePipelineSync W a : Prog DB Unit) :=
  bind (checkCurrentTransaction a) fun _ => onConnection _

theorem execute (a : Addr) (cmd : Command DB) : KeepsHeap (TaoPQ.execute W a cmd) :=
  bind (send W a cmd) fun _ => getResult W a

theorem vCommit (a : Addr) : KeepsHeap (TaoPQ.vCommit W a : Prog DB Unit) :=
  bind (deref a) fun o => by
    cases o.role
    · exact pure ()
    · exact bind (execute W a _) fun _ => pure ()
    · exact bind (execute W a _) fun _ => pure ()
    · exact bind (execute W a _) fun _ => pure ()
    · exact pure ()
    · exact pure ()

theorem vRollback (a : Addr) : KeepsHeap (TaoPQ.vRollback W a : Prog DB Unit) :=
  bind (deref a) fun o => by
    cases o.role
    · exact pure ()
    · exact bind (execute W a _) fun _ => pure ()
    · exact bind (execute W a _) fun _ => pure ()
    · exact bind (execute W a _) fun _ => pure ()
    · exact pure ()
    · exact pure ()

theorem derefConnection (a : Addr) : KeepsHeap (TaoPQ.derefConnection a : Prog DB Unit) :=
  fun s => wp_derefConnection a fun _ _ _ => ⟨s.conn, rfl⟩

theorem guardOf (b : Nat) : KeepsHeap (TaoPQ.guardOf b : Prog DB Addr) := by
  intro s
  simp only [TaoPQ.guardOf, wp_bind, wp_derefBulk, wp_pure, implies_true, and_true]
  intro k _
  cases k.transaction with
  | none => exact trivial
  | some g =>
    simp only [wp_derefPointer_some, implies_true, and_true]
    exact fun _ => wp_derefConnection g fun _ _ _ => ⟨s.conn, rfl⟩

theorem consumeSync (a : Addr) : KeepsHeap (TaoPQ.consumeSync W a : Prog DB Unit) := by
  intro s
  simp only [TaoPQ.consumeSync, wp_bind, wp_get]
  refine wp_derefConnection a fun _ _ _ => ?_
  rcases hp : s.current with _ | p
  · exact trivial
  · simp only [wp_derefPointer_some, implies_true, and_true]
    exact fun _ => by simpa only [hp] using consumePipelineSync W p s

theorem writerCheckResult (b : Nat) : KeepsHeap (TaoPQ.writerCheckResult W b : Prog DB Unit) :=
  bind (guardOf b) fun _ => bind (onConnection _) fun r => by
    cases Connection.statusOf r with
    | copyIn => exact pure ()
    | copyOut =>
      exact bind (onConnection _) fun _ => bind (onConnection _) fun _ => bind (onConnection _) fun _ =>
        bind (onConnection _) fun _ => throw _
    | commandOk => exact bind (onConnection _) fun _ => throw _
    | tuplesOk => exact bind (onConnection _) fun _ => throw _
    | emptyQuery => exact bind (onConnection _) fun _ => throw _
    | fatalError => exact bind (onConnection _) fun _ => onConnection _
    | singleTuple => exact bind (onConnection _) fun _ => onConnection _
    | tuplesChunk => exact bind (onConnection _) fun _ => onConnection _
    | pipelineSync => exact bind (onConnection _) fun _ => onConnection _
    | pipelineAborted => exact bind (onConnection _) fun _ => onConnection _

theorem rowsAffected (r : PGresult) : KeepsHeap (TaoPQ.rowsAffected r : Prog DB Nat) := by
  unfold TaoPQ.rowsAffected
  cases r.cmdTuples with
  | none => exact throw _
  | some n => exact pure n

end KeepsHeap

/-- Besides the connection, the constructor of a table reader sets the number of columns. -/
theorem wp_readerCheckResult (W : World) (b : Nat) {Q : Unit → State DB → Prop} {E : Exn → State DB → Prop}
    (hQ : ∀ c k n, s.bulk b = some k →
      Q () { s with conn := c, bulks := s.bulks.insert b { k with columns := n } })
    (hC : ∀ c, Q () { s with conn := c }) (hE : ∀ e c, E e { s with conn := c }) :
    wp True (readerCheckResult W b) Q E s := by
  simp only [readerCheckResult, wp_bind]
  refine (KeepsHeap.guardOf b).wp_of (fun g c₁ => ?_) hE
  refine (KeepsHeap.onConnection _).wp_of (fun r c₂ => ?_) fun e c₂ => hE e c₂
  have keeps {x : Prog DB Unit} (hx : KeepsHeap x) : wp True x Q E { s with conn := c₂ } :=
    hx.wp_of (fun _ c => hC c) fun e c => hE e c
  cases Connection.statusOf r with
  | copyOut =>
    simp only [wp_bind, wp_derefBulk, wp_putBulk, implies_true, and_true]
    exact fun k hk => hQ c₂ k _ hk
  | copyIn =>
    rw [wp_bind]
    exact (KeepsHeap.getResult W g).wp_of (fun _ _ => trivial) fun e c => hE e c
  | commandOk => exact keeps (.bind (.onConnection _) fun _ => .throw _)
  | tuplesOk => exact keeps (.bind (.onConnection _) fun _ => .throw _)
  | emptyQuery => exact keeps (.bind (.onConnection _) fun _ => .throw _)
  | fatalError => exact keeps (.bind (.onConnection _) fun _ => .onConnection _)
  | singleTuple => exact keeps (.bind (.onConnection _) fun _ => .onConnection _)
  | tuplesChunk => exact keeps (.bind (.onConnection _) fun _ => .onConnection _)
  | pipelineSync => exact keeps (.bind (.onConnection _) fun _ => .onConnection _)
  | pipelineAborted => exact keeps (.bind (.onConnection _) fun _ => .onConnection _)

/-! ### Destructors do not throw -/

namespace NeverThrows

variable (W : World)

theorem deref (a : Addr) : NeverThrows (TaoPQ.deref a : Prog DB Object) := by
  intro s
  rw [wp_deref]
  exact ⟨fun _ _ => trivial, fun _ => trivial⟩

theorem derefConnection (a : Addr) : NeverThrows (TaoPQ.derefConnection a : Prog DB Unit) :=
  .bind (deref a) fun _ => .ite (.pure _) .undefined

theorem vReset (a : Addr) : NeverThrows (TaoPQ.vReset a : Prog DB Unit) :=
  .bind (derefConnection a) fun _ => .bind (deref a) fun _ => .bind (.modify _) fun _ => .modify _

theorem deregister (a : Addr) : NeverThrows (TaoPQ.deregister a : Prog DB Unit) :=
  .bind (deref a) fun _ => .ite (.modify _) (.pure _)

theorem attemptRollback : NeverThrows (onConnection Connection.attemptRollback : Prog DB Bool) := by
  intro s
  simp only [wp_onConnection, Connection.attemptRollback, Connection.transactionStatus, wp_bind, wp_libpq]
  cases s.conn.pg.transactionStatus <;> exact trivial

theorem attemptRollbackInDtor (a : Addr) : NeverThrows (TaoPQ.attemptRollbackInDtor W a : Prog DB Unit) := by
  have hrollback : NeverThrows (TaoPQ.rollbackInDtor W a : Prog DB Unit) :=
    .bind (.catchAll _ fun _ => derefConnection a) fun _ => vReset a
  exact .bind (deref a) fun _ => .ite (.bind attemptRollback fun _ => .ite hrollback (.pure _)) (.pure _)

theorem destructor (release : Addr → Prog DB Unit) (a : Addr) : NeverThrows (TaoPQ.destructor W release a) :=
  .bind (deref a) fun o => by
    have ended : NeverThrows (do TaoPQ.attemptRollbackInDtor W a; TaoPQ.deregister a : Prog DB Unit) :=
      .bind (attemptRollbackInDtor W a) fun _ => deregister a
    cases o.role with
    | autocommitTransaction => exact deregister a
    | topLevelTransaction => exact ended
    | topLevelSubtransaction p => exact ended
    | nestedSubtransaction p => exact ended
    | transactionGuard p => exact deregister a
    | pipeline p => exact .catchAll _ fun _ => .pure _

theorem releaseN (n : Nat) (a : Addr) : NeverThrows (TaoPQ.releaseN W n a : Prog DB Unit) := by
  induction n generalizing a with
  | zero => exact .pure _
  | succ n ih =>
    refine .bind .get fun s => .ite ?_ (.pure _)
    refine .bind (destructor W _ a) fun _ => .bind (deref a) fun o => .bind (.modify _) fun _ => ?_
    cases o.role.previous with
    | none => exact .pure _
    | some p => exact ih p

/-- A shared pointer is released without an exception. -/
theorem release (a : Addr) : NeverThrows (TaoPQ.release W a : Prog DB Unit) := .bind .get fun _ => releaseN W _ a

theorem dropHandle (a : Addr) : NeverThrows (TaoPQ.dropHandle W a : Prog DB Unit) :=
  .bind (.modify _) fun _ => release W a

end NeverThrows

end TaoPQ
