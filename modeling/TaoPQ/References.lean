import TaoPQ.Ownership

/-!
# What a reference keeps

Whatever a program does with its own handles, an object that somebody else owns stays where it is, and once its
connection has been reset, it is never set again (`perform_keeps`).
-/

namespace TaoPQ

open Exec

variable {DB : Type}

/-- The connection of the object has been reset. -/
def State.over (s : State DB) (t : Addr) : Prop := ∃ o, s.object t = some o ∧ o.connected = false

/-- With more than `n` handles there are still more than `n`, and an object that was over still is. -/
def Keeps (t : Addr) (n : Nat) (s s' : State DB) : Prop :=
  n < s.held.count t → n < s'.held.count t ∧ (s.over t → s'.over t)

namespace Keeps

variable {t a : Addr} {n : Nat} {s s' : State DB}

theorem refl (s : State DB) : Keeps t n s s := fun h => ⟨h, id⟩

theorem trans {s'' : State DB} (h : Keeps t n s s') (h' : Keeps t n s' s'') : Keeps t n s s'' := by
  intro hn
  obtain ⟨hn', hover⟩ := h hn
  obtain ⟨hn'', hover'⟩ := h' hn'
  exact ⟨hn'', fun ho => hover' (hover ho)⟩

instance : IsPreorder (State DB) (Keeps t n) where
  refl := refl
  trans _ _ _ := trans

/-- An object is placed elsewhere, or it is over, or it has the connection of the one that was there. -/
theorem put {o : Object} (ho : a = t → s.over t → o.connected = false) :
    Keeps t n s { s with objects := s.objects.insert a o } := by
  refine fun hn => ⟨hn, fun hover => ?_⟩
  by_cases ha : a = t
  · exact ⟨o, by rw [State.object_insert, if_pos ha.symm], ho ha hover⟩
  · obtain ⟨x, hx, hc⟩ := hover
    exact ⟨x, by rw [State.object_insert, if_neg (Ne.symm ha), hx], hc⟩

section Heap

theorem of_keepsHeap {α : Type} {x : Prog DB α} (hx : KeepsHeap x) : Follows (Keeps t n) x :=
  Follows.mono hx fun s s' h => by
    obtain ⟨c, rfl⟩ := h
    exact refl s

/-- What changes neither handles nor objects. -/
theorem modify {f : State DB → State DB} (hheld : ∀ s, (f s).held = s.held)
    (hobjects : ∀ s, (f s).objects = s.objects) :
    Follows (Keeps t n) (Exec.modify f : Prog DB Unit) :=
  .modify fun s hn => by
    unfold State.over State.object
    rw [hheld, hobjects]
    exact ⟨hn, id⟩

theorem setCurrent (p : Option Addr) : Follows (Keeps t n) (TaoPQ.setCurrent p : Prog DB Unit) :=
  modify (fun _ => rfl) fun _ => rfl

theorem putBulk (b : Nat) (k : Bulk) : Follows (Keeps t n) (TaoPQ.putBulk b k : Prog DB Unit) :=
  modify (fun _ => rfl) fun _ => rfl

theorem derefBulk (b : Nat) : Follows (Keeps t n) (TaoPQ.derefBulk b : Prog DB Bulk) := by
  intro s
  rw [wp_derefBulk]
  exact ⟨fun _ _ => refl s, fun _ => trivial⟩

theorem derefPointer (p : Option Addr) : Follows (Keeps t n) (TaoPQ.derefPointer p : Prog DB Addr) := by
  cases p with
  | none => exact .undefined
  | some a => exact .bind (of_keepsHeap (.deref a)) fun _ => .pure _

theorem hold (a : Addr) : Follows (Keeps t n) (TaoPQ.hold a : Prog DB Unit) :=
  .modify fun _ hn => ⟨Nat.lt_of_lt_of_le hn List.count_le_count_cons, id⟩

theorem putObject (o : Object) (ha : a ≠ t) : Follows (Keeps t n) (TaoPQ.putObject a o : Prog DB Unit) :=
  fun _ => put fun h => absurd h ha

theorem eraseObject (ha : a ≠ t) : Follows (Keeps t n) (TaoPQ.eraseObject a : Prog DB Unit) := by
  refine fun s hn => ⟨hn, fun hover => ?_⟩
  obtain ⟨o, ho, hc⟩ := hover
  exact ⟨o, by rw [State.object_erase, if_neg (Ne.symm ha), ho], hc⟩

theorem vReset (a : Addr) : Follows (Keeps t n) (TaoPQ.vReset a : Prog DB Unit) :=
  .bind (of_keepsHeap (.derefConnection a)) fun _ => .bind (of_keepsHeap (.deref a)) fun _ =>
    .bind (setCurrent _) fun _ _ => put fun _ _ => rfl

theorem deregister (a : Addr) : Follows (Keeps t n) (TaoPQ.deregister a : Prog DB Unit) :=
  .bind (of_keepsHeap (.deref a)) fun _ => .ite (setCurrent _) (.pure _)

theorem endWith (a : Addr) {x : Prog DB Unit} (hx : KeepsHeap x) : Follows (Keeps t n) (TaoPQ.endWith a x) :=
  .bind (.catchAll (of_keepsHeap (.bind (.checkCurrentTransaction a) fun _ => hx)) fun _ =>
    .bind (vReset a) fun _ => .throw _) fun _ => vReset a

theorem newTransactionBase (role : Role) (ha : a ≠ t) :
    Follows (Keeps t n) (TaoPQ.newTransactionBase a role : Prog DB Unit) := by
  have pushed : Follows (Keeps t n) (do TaoPQ.putObject a ⟨role, true⟩; TaoPQ.setCurrent (some a) : Prog DB Unit) :=
    .bind (putObject _ ha) fun _ => setCurrent _
  exact .bind .get fun _ => .ite (.bind (.throw _) fun _ => pushed) pushed

theorem newSubtransactionBase (role : Addr → Role) (ha : a ≠ t) :
    Follows (Keeps t n) (TaoPQ.newSubtransactionBase a role : Prog DB Unit) :=
  .bind .get fun _ => .bind (derefPointer _) fun _ => .bind (putObject _ ha) fun _ => setCurrent _

theorem direct (ha : a ≠ t) : Follows (Keeps t n) (TaoPQ.direct a : Prog DB Unit) :=
  .bind (newTransactionBase _ ha) fun _ => hold a

end Heap

section Release

variable {W : World}

theorem rollbackInDtor (a : Addr) : Follows (Keeps t n) (TaoPQ.rollbackInDtor W a : Prog DB Unit) :=
  .bind (.catchAll (of_keepsHeap (.bind (.checkCurrentTransaction a) fun _ => .vRollback W a)) fun _ =>
    of_keepsHeap (.derefConnection a)) fun _ => vReset a

theorem attemptRollbackInDtor (a : Addr) : Follows (Keeps t n) (TaoPQ.attemptRollbackInDtor W a : Prog DB Unit) :=
  .bind (of_keepsHeap (.deref a)) fun _ => .ite
    (.bind (of_keepsHeap (.onConnection _)) fun _ => .ite (rollbackInDtor a) (.pure _)) (.pure _)

theorem finishWith {release : Addr → Prog DB Unit} (hr : ∀ p, Follows (Keeps t n) (release p)) (a : Addr) :
    Follows (Keeps t n) (TaoPQ.finishWith release a) := by
  intro s
  rw [TaoPQ.finishWith, wp_bind, wp_deref]
  refine ⟨fun o ho => ?_, fun _ => trivial⟩
  split
  · rename_i p _
    rw [wp_bind, wp_setCurrent, wp_bind, wp_putObject]
    have hput : Keeps t n s { s with
        current := some p, objects := s.objects.insert a { o with role := .pipeline none } } := by
      refine put (s := { s with current := some p }) fun ha hover => ?_
      obtain ⟨x, hx, hc⟩ := hover
      rw [ha] at ho
      obtain rfl := Option.some.inj (ho.symm.trans hx)
      exact hc
    exact (Follows.andFinally (of_keepsHeap (.onConnection _)) (hr p)).leaves fun _ => hput.trans
  · exact refl s

theorem destructor {release : Addr → Prog DB Unit} (hr : ∀ p, Follows (Keeps t n) (release p)) (a : Addr) :
    Follows (Keeps t n) (TaoPQ.destructor W release a) :=
  .bind (of_keepsHeap (.deref a)) fun o => by
    have ended : Follows (Keeps t n) (do TaoPQ.attemptRollbackInDtor W a; TaoPQ.deregister a : Prog DB Unit) :=
      .bind (attemptRollbackInDtor a) fun _ => deregister a
    cases o.role with
    | autocommitTransaction => exact deregister a
    | topLevelTransaction => exact ended
    | topLevelSubtransaction p => exact ended
    | nestedSubtransaction p => exact ended
    | transactionGuard p => exact deregister a
    | pipeline p => exact .catchAll (finishWith hr a) fun _ => .pure _

theorem releaseN (m : Nat) (a : Addr) : Follows (Keeps t n) (TaoPQ.releaseN W m a : Prog DB Unit) := by
  induction m generalizing a with
  | zero => exact .pure _
  | succ m ih =>
    by_cases ha : a = t
    · intro s
      rw [TaoPQ.releaseN, wp_bind, wp_get, wp_ite]
      refine ⟨fun hu => ?_, fun _ => refl s⟩
      -- with a handle left, the object is not destroyed
      have hnone : ∀ s', Keeps t n s s' := by
        intro s' hn
        have hheld : t ∈ s.held := List.count_pos_iff.mp (Nat.zero_lt_of_lt hn)
        exact absurd (.inl (ha ▸ hheld)) ((s.unowned_eq_true a).mp hu)
      exact wp_trivial (fun _ => hnone) fun _ => hnone
    · refine .bind .get fun s => .ite ?_ (.pure _)
      refine .bind (destructor ih a) fun _ => .bind (of_keepsHeap (.deref a)) fun o => ?_
      refine .bind (eraseObject ha) fun _ => ?_
      cases o.role.previous with
      | none => exact .pure _
      | some p => exact ih p

theorem release (a : Addr) : Follows (Keeps t n) (TaoPQ.release W a : Prog DB Unit) :=
  .bind .get fun _ => releaseN _ a

theorem dropHandle (ha : a ≠ t) : Follows (Keeps t n) (TaoPQ.dropHandle W a : Prog DB Unit) :=
  .bind (.modify fun s hn => ⟨by rwa [List.count_erase_of_ne (Ne.symm ha)], id⟩) fun _ => release a

theorem unwindSubtransaction (ha : a ≠ t) : Follows (Keeps t n) (TaoPQ.unwindSubtransaction W a : Prog DB Unit) :=
  .bind (deregister a) fun _ => .bind (of_keepsHeap (.deref a)) fun o => .bind (eraseObject ha) fun _ => by
    cases o.role.previous with
    | none => exact .pure _
    | some p => exact release p

theorem resetTransaction (b : Nat) : Follows (Keeps t n) (TaoPQ.resetTransaction W b : Prog DB Unit) :=
  .bind (derefBulk b) fun k => .bind (putBulk b _) fun _ => by
    cases k.transaction with
    | none => exact .pure _
    | some g => exact release g

theorem resetPrevious (b : Nat) : Follows (Keeps t n) (TaoPQ.resetPrevious W b : Prog DB Unit) :=
  .bind (derefBulk b) fun k => .bind (putBulk b _) fun _ => by
    cases k.previous with
    | none => exact .pure _
    | some o => exact release o

theorem destroyMembers (b : Nat) : Follows (Keeps t n) (TaoPQ.destroyMembers W b : Prog DB Unit) :=
  .bind (resetTransaction b) fun _ => .bind (resetPrevious b) fun _ => modify (fun _ => rfl) fun _ => rfl

theorem transaction (il : IsolationLevel) (am : AccessMode) (ha : a ≠ t) :
    Follows (Keeps t n) (TaoPQ.transaction W a il am : Prog DB Unit) :=
  .bind (newTransactionBase _ ha) fun _ => .bind (.catchAll (of_keepsHeap (.execute W a _)) fun _ =>
    .bind (deregister a) fun _ => .bind (eraseObject ha) fun _ => .throw _) fun _ => hold a

theorem newSubtransaction (role : Addr → Role) (k : Control) (ha : a ≠ t) :
    Follows (Keeps t n) (TaoPQ.newSubtransaction W a role k : Prog DB Unit) :=
  .bind (newSubtransactionBase _ ha) fun _ => .bind (.catchAll (of_keepsHeap (.execute W a _)) fun _ =>
    .bind (unwindSubtransaction ha) fun _ => .throw _) fun _ => hold a

theorem subtransaction (o : Addr) (ha : a ≠ t) : Follows (Keeps t n) (TaoPQ.subtransaction W o a : Prog DB Unit) :=
  .bind (of_keepsHeap (.checkCurrentTransaction o)) fun _ => .bind (of_keepsHeap (.deref o)) fun _ =>
    .ite (newSubtransaction _ _ ha) (newSubtransaction _ _ ha)

theorem pipeline (o : Addr) (ha : a ≠ t) : Follows (Keeps t n) (TaoPQ.pipeline o a : Prog DB Unit) :=
  .bind (of_keepsHeap (.checkCurrentTransaction o)) fun _ => .bind .get fun _ => .bind (derefPointer _) fun _ =>
    .bind (of_keepsHeap (.onConnection _)) fun _ => .bind (putObject _ ha) fun _ => .bind (setCurrent _) fun _ => hold a

theorem connectionPipeline {d : Addr} (hd : d ≠ t) (ha : a ≠ t) :
    Follows (Keeps t n) (TaoPQ.connectionPipeline W d a : Prog DB Unit) :=
  .bind (direct hd) fun _ => .andFinally (pipeline d ha) (dropHandle hd)

theorem connectionExecute {d : Addr} (cmd : Command DB) (hd : d ≠ t) :
    Follows (Keeps t n) (TaoPQ.connectionExecute W d cmd) :=
  .bind (direct hd) fun _ => .andFinally (of_keepsHeap (.execute W d cmd)) (dropHandle hd)

theorem deallocate {d : Addr} (name : String) (hd : d ≠ t) :
    Follows (Keeps t n) (TaoPQ.deallocate W d name : Prog DB Unit) :=
  .bind (of_keepsHeap (.onConnection _)) fun _ => .bind .get fun _ =>
    .ite (.bind (connectionExecute _ hd) fun _ => modify (fun _ => rfl) fun _ => rfl) (.throw _)

theorem readerCheckResult (b : Nat) : Follows (Keeps t n) (TaoPQ.readerCheckResult W b : Prog DB Unit) := fun s =>
  wp_readerCheckResult W b (fun _ _ _ _ => refl s) (fun _ => refl s) fun _ _ => refl s

theorem newBulk {g : Addr} (reader : Bool) (o : Addr) (b : Nat) (u : Statement DB) (hg : g ≠ t) :
    Follows (Keeps t n) (TaoPQ.newBulk W reader o g b u) :=
  .bind (.bind (of_keepsHeap (.derefConnection o)) fun _ => newSubtransactionBase _ hg) fun _ =>
    .bind (putBulk b _) fun _ => .catchAll (.bind (of_keepsHeap (.send W g _)) fun _ =>
      .ite (readerCheckResult b) (of_keepsHeap (.writerCheckResult W b))) fun _ =>
        .bind (destroyMembers b) fun _ => .throw _

theorem getRawData (b : Nat) : Follows (Keeps t n) (TaoPQ.getRawData W b : Prog DB (Option Chunk)) :=
  .bind (of_keepsHeap (.guardOf b)) fun _ => .bind (of_keepsHeap (.onConnection _)) fun data =>
    .bind (derefBulk b) fun _ => .bind (putBulk b _) fun _ => by
      cases data with
      | some row => exact .pure _
      | none =>
        refine .bind (of_keepsHeap (.onConnection _)) fun r => ?_
        cases r with
        | none => exact of_keepsHeap (.onConnection _)
        | some r =>
          exact .bind (of_keepsHeap (.onConnection _)) fun _ => .bind (resetTransaction b) fun _ =>
            .bind (resetPrevious b) fun _ => .pure _

theorem writerCommit (b : Nat) : Follows (Keeps t n) (TaoPQ.writerCommit W b : Prog DB Nat) :=
  .bind (of_keepsHeap (.guardOf b)) fun g => .bind (of_keepsHeap (.onConnection _)) fun _ =>
    .bind (of_keepsHeap (.getResult W g)) fun r => .bind (of_keepsHeap (.rowsAffected r)) fun _ =>
      .bind (resetTransaction b) fun _ => .bind (resetPrevious b) fun _ => .pure _

theorem destroyBulk (b : Nat) : Follows (Keeps t n) (TaoPQ.destroyBulk W b : Prog DB Unit) :=
  .bind (derefBulk b) fun k => by
    split
    · exact .bind (.catchAll (.bind (of_keepsHeap (.getResult W _)) fun _ => .pure _) fun _ => .pure _) fun _ =>
        destroyMembers b
    · exact destroyMembers b

end Release

end Keeps

variable {W : World} {s : State DB} {t : Addr} {n : Nat}

/-- Dropping one of several handles. -/
theorem dropHandle_keeps {a : Addr} (hdrop : a = t → n + 1 < s.held.count t) (hn : n < s.held.count t) :
    Leaves (dropHandle W a) (fun s' => n < s'.held.count t ∧ (s.over t → s'.over t)) s := by
  by_cases ha : a = t
  · subst ha
    have hfewer : n < (s.held.erase a).count a := by
      rw [List.count_erase_self]
      have hmore := hdrop rfl
      omega
    exact (Keeps.release a).leaves (s := { s with held := s.held.erase a }) fun s' h => h hfewer
  · exact (Keeps.dropHandle ha).leaves fun s' h => h hn

/-- Whatever call a program makes, without dropping the reference itself. -/
theorem perform_keeps {c : Call DB} (h : s.Owned) (hl : c.Legal s)
    (hdrop : c = .dropHandle t → n + 1 < s.held.count t) (hn : n < s.held.count t) :
    Leaves (perform W c) (fun s' => n < s'.held.count t ∧ (s.over t → s'.over t)) s := by
  have keeps {x : Prog DB Unit} (hx : Follows (Keeps t n) x) :
      Leaves x (fun s' => n < s'.held.count t ∧ (s.over t → s'.over t)) s := hx.leaves fun s' h => h hn
  have heap {x : Prog DB Unit} (hx : KeepsHeap x) := keeps (Keeps.of_keepsHeap hx)
  have ignored {α : Type} {x : Prog DB α} (hx : Follows (Keeps t n) x) := keeps (.bind hx fun _ => .pure ())
  -- a new object is placed elsewhere
  have fresh {a : Addr} (ha : s.free a) : a ≠ t := by
    rintro rfl
    have halive := h.alive a (.inl (List.count_pos_iff.mp (Nat.zero_lt_of_lt hn)))
    rw [show s.object a = none from ha] at halive
    cases halive
  cases c with
  | direct a => exact keeps (Keeps.direct (fresh hl))
  | transaction a il am => exact keeps (Keeps.transaction il am (fresh hl))
  | connectionPipeline d a => exact keeps (Keeps.connectionPipeline (fresh hl.1) (fresh hl.2.1))
  | connectionExecute d u => exact ignored (Keeps.connectionExecute _ (fresh hl))
  | prepare name valid => exact heap (.onConnection _)
  | deallocate d name => exact keeps (Keeps.deallocate name (fresh hl))
  | enterPipelineMode => exact heap (.onConnection _)
  | exitPipelineMode => exact heap (.onConnection _)
  | connectionSync => exact heap (.onConnection _)
  | subtransaction o a => exact keeps (Keeps.subtransaction o (fresh hl.2))
  | pipeline o a => exact keeps (Keeps.pipeline o (fresh hl.2))
  | send o u => exact heap (.send W o _)
  | setSingleRowMode o => exact heap (.setSingleRowMode o)
  | setChunkMode o rows => exact heap (.setChunkMode o rows)
  | getResult o => exact ignored (Keeps.of_keepsHeap (.getResult W o))
  | consumePipelineSync o => exact heap (.consumePipelineSync W o)
  | execute o u => exact ignored (Keeps.of_keepsHeap (.execute W o _))
  | commit o => exact keeps (Keeps.endWith o (.vCommit W o))
  | rollback o => exact keeps (Keeps.endWith o (.vRollback W o))
  | sync o => exact heap (.bind (.derefConnection o) fun _ => .onConnection _)
  | consumeSync o => exact heap (.consumeSync W o)
  | finish o => exact keeps (Keeps.finishWith Keeps.release o)
  | copyHandle o => exact keeps (Keeps.hold o)
  | dropHandle o => exact dropHandle_keeps (fun ho => hdrop (ho ▸ rfl)) hn
  | tableReader o g b u => exact keeps (Keeps.newBulk true o b u (fresh hl.2.1))
  | tableWriter o g b u => exact keeps (Keeps.newBulk false o b u (fresh hl.2.1))
  | getRow b => exact ignored (Keeps.getRawData b)
  | insertRaw b data => exact heap (.bind (.guardOf b) fun _ => .onConnection _)
  | writerCommit b => exact ignored (Keeps.writerCommit b)
  | destroyBulk b => exact keeps (Keeps.destroyBulk b)

end TaoPQ
