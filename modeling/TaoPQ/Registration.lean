import TaoPQ.Ownership
import TaoPQ.Lib.LinkedStack

/-!
# The current transaction

The objects through which a program may still talk to the server form a stack (`State.Registered`): the raw pointer
`m_current_transaction` is its top, and the `m_previous` of each object leads to the next one.  Constructors push,
and `v_reset`, `pipeline::finish` and the destructors pop, provided that the object is the top one.  The destructors
see to that themselves, since an object with an owner above it is not destroyed; for `commit`, `rollback` and
`finish` it is up to the program (`Call.InOrder`), because the order check comes too late: the object is reset also
when the check fails.
-/

namespace TaoPQ

open Exec LinkedStack

variable {DB : Type} {s s' : State DB} {a : Addr} {o : Object}

/-- What an object on the stack points to.  An object that was ended is no longer on the stack: a transaction whose
connection is reset, and a pipeline that has given up its transaction. -/
def Object.link (o : Object) : Option (Option Addr) :=
  match o.role with
  | .pipeline p => p.map some
  | _ => if o.connected then some o.role.previous else none

theorem Object.link_transaction (h : o.role.isPipeline = false) :
    o.link = if o.connected then some o.role.previous else none := by
  obtain ⟨r, c⟩ := o
  cases r with
  | pipeline p => cases h
  | _ => rfl

theorem Object.link_previous {q : Option Addr} (h : o.link = some q) : o.role.previous = q := by
  obtain ⟨r, c⟩ := o
  cases r with
  | pipeline p =>
    cases p with
    | none => cases h
    | some p => exact Option.some.inj h
  | _ =>
    rw [Object.link_transaction rfl] at h
    split at h
    · exact Option.some.inj h
    · cases h

namespace State

def next (s : State DB) (a : Addr) : Option (Option Addr) := (s.object a).bind Object.link

/-- The current transaction is the top of the stack of all objects that were not ended. -/
def Registered (s : State DB) : Prop := Spans s.next s.current

/-- The same, when the object is left aside: it is about to be destroyed. -/
def RegisteredWithout (s : State DB) (a : Addr) : Prop := Spans (Function.update s.next a none) s.current

/-- The stack is in order again, and no object has come back to it. -/
def Unlinks (s s' : State DB) : Prop := s'.Registered ∧ ∀ a, s.next a = none → s'.next a = none

theorem next_insert (s : State DB) (a : Addr) (o : Object) :
    ({ s with objects := s.objects.insert a o } : State DB).next = Function.update s.next a o.link := by
  funext x
  by_cases h : x = a
  · subst h
    simp [next, object_insert]
  · simp [next, object_insert, h]

theorem next_erase (s : State DB) (a : Addr) :
    ({ s with objects := s.objects.erase a } : State DB).next = Function.update s.next a none := by
  funext x
  by_cases h : x = a
  · subst h
    simp [next, object_erase]
  · simp [next, object_erase, h]

theorem next_of_object (h : s.object a = some o) : s.next a = o.link := by simp [next, h]

theorem next_of_free (h : s.free a) : s.next a = none := by
  rw [free] at h
  simp [next, h]

theorem Registered.init (db : DB) : (State.init db).Registered := Spans.nil fun _ => rfl

theorem Registered.unlinks (h : s.Registered) : s.Unlinks s := ⟨h, fun _ => id⟩

theorem Registered.conn (h : s.Registered) (c : Connection DB) : s.Unlinks { s with conn := c } := ⟨h, fun _ => id⟩

theorem Unlinks.trans {s'' : State DB} (h : s.Unlinks s') (h' : s'.Unlinks s'') : s.Unlinks s'' :=
  ⟨h'.1, fun a ha => h'.2 a (h.2 a ha)⟩

theorem Registered.without (h : s.Registered) (ha : s.next a = none) : s.RegisteredWithout a := by
  rw [RegisteredWithout, ← ha, Function.update_eq_self]
  exact h

theorem RegisteredWithout.erase (h : s.RegisteredWithout a) :
    ({ s with objects := s.objects.erase a } : State DB).Registered := by
  rw [Registered, next_erase]
  exact h

/-- An object without an owner is the top of the stack, or was ended. -/
theorem Registered.top_of_unowned (h : s.Registered) (hu : ¬ s.Owns a) (ha : (s.next a).isSome) :
    s.current = some a := by
  refine h.eq_top ha fun x hx => hu (.inr (.inl ?_))
  rcases ho : s.object x with _ | o
  · simp [next, ho] at hx
  · rw [next_of_object ho] at hx
    exact ⟨x, o, ho, Object.link_previous hx⟩

/-- A new object is pushed. -/
theorem Registered.push (h : s.Registered) (ha : s.free a) (ho : o.link = some s.current) :
    ({ s with objects := s.objects.insert a o, current := some a } : State DB).Registered := by
  show Spans ({ s with objects := s.objects.insert a o } : State DB).next (some a)
  rw [next_insert, ho]
  exact Spans.push h (next_of_free ha)

/-- The top object is ended. -/
theorem Registered.pop (h : s.Registered) (o' : Object) (ho : s.object a = some o) (ht : s.current = some a)
    (ho' : o'.link = none) :
    s.Unlinks { s with objects := s.objects.insert a o', current := o.role.previous } := by
  rw [Registered, ht] at h
  obtain ⟨q, hq⟩ := h.top
  obtain rfl := Object.link_previous ((next_of_object ho).symm.trans hq)
  have hn : ({ s with objects := s.objects.insert a o', current := o.role.previous } : State DB).next =
      Function.update s.next a none := by
    rw [← ho']
    exact next_insert s a o'
  refine ⟨?_, fun x hx => ?_⟩
  · rw [Registered, hn]
    exact h.pop hq
  · rw [hn, Function.update_apply, hx, ite_self]

end State

/-! ### Ending an object -/

section Release

variable {W : World}

/-- The transaction is no longer on the stack. -/
private def Ended (s : State DB) (a : Addr) (s' : State DB) : Prop :=
  s.Unlinks s' ∧ s'.next a = none ∧ ∀ o, s'.object a = some o → o.role.isPipeline = false

private theorem vReset_registered (h : s.Registered) (ht : s.current = some a)
    (ha : ∀ o, s.object a = some o → o.role.isPipeline = false) :
    wp True (vReset a) (fun _ => Ended s a) (fun _ => s.Unlinks) s := by
  simp only [vReset, wp_bind, wp_deref, wp_setCurrent, wp_putObject, implies_true, and_true]
  refine wp_derefConnection a fun _ _ _ o ho => ?_
  have hlink : ({ o with connected := false } : Object).link = none :=
    Object.link_transaction (o := { o with connected := false }) (ha o ho)
  have hobj : ({ s with objects := s.objects.insert a { o with connected := false } } : State DB).object a =
      some { o with connected := false } := by rw [State.object_insert, if_pos rfl]
  refine ⟨h.pop _ ho ht hlink, ?_, fun x hx => ?_⟩
  · exact (State.next_of_object hobj).trans hlink
  · obtain rfl := Option.some.inj (hobj.symm.trans hx)
    exact ha o ho

theorem endWith_registered {x : Prog DB Unit} (hx : KeepsHeap x) (h : s.Registered) (ht : s.current = some a)
    (ha : ∀ o, s.object a = some o → o.role.isPipeline = false) :
    Leaves (endWith a x) s.Unlinks s := by
  rw [leaves_endWith]
  refine (KeepsHeap.bind (.checkCurrentTransaction a) fun _ => hx).leaves fun c => ?_
  exact wp_mono (vReset_registered (h.conn c).1 ht ha) (fun _ _ hs => (h.conn c).trans hs.1)
    (fun _ _ => (h.conn c).trans)

private theorem rollbackInDtor_registered (h : s.Registered) (ht : s.current = some a)
    (ha : ∀ o, s.object a = some o → o.role.isPipeline = false) :
    wp True (rollbackInDtor W a) (fun _ => Ended s a) (fun _ => s.Unlinks) s := by
  simp only [rollbackInDtor, wp_bind, wp_catchAll]
  rw [← wp_bind]
  have reset (c : Connection DB) :
      wp True (vReset a) (fun _ => Ended s a) (fun _ => s.Unlinks) { s with conn := c } :=
    wp_mono (vReset_registered (h.conn c).1 ht ha) (fun _ _ hs => ⟨(h.conn c).trans hs.1, hs.2⟩)
      (fun _ _ => (h.conn c).trans)
  refine (KeepsHeap.bind (.checkCurrentTransaction a) fun _ => .vRollback W a).wp_of (fun _ c => reset c) fun e c => ?_
  exact wp_derefConnection a fun _ _ _ => reset c

/-- An object leaves the stack with its destructor, if it is still there. -/
private theorem deregister_registered (h : s.Registered) (ht : (s.next a).isSome → s.current = some a)
    (ha : ∀ o, s.object a = some o → o.role.isPipeline = false) :
    wp True (deregister a) (fun _ s' => s'.RegisteredWithout a ∧ s'.objects = s.objects) (fun _ _ => False) s := by
  simp only [deregister, wp_bind, wp_deref, wp_ite, wp_setCurrent, wp_pure, implies_true, and_true]
  intro o ho
  have hlink := Object.link_transaction (ha o ho)
  refine ⟨fun hc => ?_, fun hc => h.without ?_⟩
  · rw [if_pos hc] at hlink
    have hq := (State.next_of_object ho).trans hlink
    have hs : Spans s.next (some a) := ht (by simp [hq]) ▸ h
    exact hs.pop hq
  · rw [State.next_of_object ho, hlink, if_neg hc]

/-- What is asked of the release of a reference, for the destructors that call it. -/
abbrev ReleaseRegistered (release : Addr → Prog DB Unit) : Prop :=
  ∀ (a : Addr) (s : State DB), s.Registered → Leaves (release a) s.Unlinks s

private theorem finishWith_registered {release : Addr → Prog DB Unit} (hr : ReleaseRegistered release)
    (h : s.Registered) (ht : (s.next a).isSome → s.current = some a)
    (ha : ∀ o, s.object a = some o → o.role.isPipeline = true) :
    Leaves (finishWith release a) (fun s' => s.Unlinks s' ∧ s'.next a = none) s := by
  simp only [finishWith, wp_bind, wp_deref, implies_true, and_true]
  intro o ho
  split
  · rename_i p hp
    simp only [wp_bind, wp_setCurrent, wp_putObject, wp_andFinally]
    have ht' : s.current = some a := ht (by simp [State.next_of_object ho, Object.link, hp])
    have hl := h.pop { o with role := .pipeline none } ho ht' rfl
    rw [hp] at hl
    have hn :
        ({ s with objects := s.objects.insert a { o with role := .pipeline none } } : State DB).next a = none := by
      rw [State.next_insert, Function.update_self]
      rfl
    have released (c : Connection DB) := hr p _ (hl.1.conn c).1
    refine (KeepsHeap.onConnection _).leaves fun c => ?_
    refine (released c).mono fun _ hs => ?_
    exact ⟨(hl.trans (hl.1.conn c)).trans hs, hs.2 a hn⟩
  · rename_i hp
    refine ⟨h.unlinks, ?_⟩
    rw [State.next_of_object ho]
    obtain ⟨r, c⟩ := o
    cases r with
    | pipeline p =>
      cases p with
      | none => rfl
      | some p => exact absurd rfl (hp p)
    | _ => exact absurd (ha _ ho) (by simp [Role.isPipeline])

private theorem attemptRollbackInDtor_registered (h : s.Registered) (ht : (s.next a).isSome → s.current = some a)
    (ha : ∀ o, s.object a = some o → o.role.isPipeline = false) :
    wp True (attemptRollbackInDtor W a)
      (fun _ s' => s.Unlinks s' ∧ ((s'.next a).isSome → s'.current = some a) ∧
        ∀ o, s'.object a = some o → o.role.isPipeline = false)
      (fun _ => s.Unlinks) s := by
  simp only [attemptRollbackInDtor, wp_bind, wp_deref, wp_ite, wp_pure, implies_true, and_true]
  refine fun o ho => ⟨fun hc => ?_, fun _ => ⟨h.unlinks, ht, ha⟩⟩
  refine (KeepsHeap.onConnection _).wp_of (fun v c => ⟨fun _ => ?_, fun _ => ⟨h.conn c, ht, ha⟩⟩) (fun _ c => h.conn c)
  have ht' : s.current = some a := by
    refine ht ?_
    rw [State.next_of_object ho, Object.link_transaction (ha o ho), if_pos hc]
    rfl
  refine wp_mono (rollbackInDtor_registered (h.conn c).1 ht' ha) (fun _ s₁ hs₁ => ?_) (fun _ _ => (h.conn c).trans)
  exact ⟨(h.conn c).trans hs₁.1, by simp [hs₁.2.1], hs₁.2.2⟩

theorem destructor_registered {release : Addr → Prog DB Unit} (hr : ReleaseRegistered release)
    (h : s.Registered) (hu : ¬ s.Owns a) :
    wp True (destructor W release a)
      (fun _ s' => s'.RegisteredWithout a ∧ ∀ x, s.next x = none → s'.next x = none) (fun _ => s.Unlinks) s := by
  have ht := h.top_of_unowned hu
  have dereg (s₁ : State DB) (h₁ : s.Unlinks s₁) (ht₁ : (s₁.next a).isSome → s₁.current = some a)
      (ha₁ : ∀ o, s₁.object a = some o → o.role.isPipeline = false) :
      wp True (deregister a)
        (fun _ s' => s'.RegisteredWithout a ∧ ∀ x, s.next x = none → s'.next x = none) (fun _ => s.Unlinks) s₁ := by
    refine wp_mono (deregister_registered h₁.1 ht₁ ha₁) (fun _ s' hs' => ?_) (fun _ _ => False.elim)
    refine ⟨hs'.1, fun x hx => ?_⟩
    have hn := h₁.2 x hx
    unfold State.next State.object at hn ⊢
    rwa [hs'.2]
  simp only [destructor, wp_bind, wp_deref, implies_true, and_true]
  intro o ho
  have isPipeline {b : Bool} (hb : o.role.isPipeline = b) (x : Object) (hx : s.object a = some x) :
      x.role.isPipeline = b := Option.some.inj (ho.symm.trans hx) ▸ hb
  have ended (hp : o.role.isPipeline = false) :
      wp True (do attemptRollbackInDtor W a; deregister a)
        (fun _ s' => s'.RegisteredWithout a ∧ ∀ x, s.next x = none → s'.next x = none) (fun _ => s.Unlinks) s := by
    rw [wp_bind]
    exact wp_mono (attemptRollbackInDtor_registered h ht (isPipeline hp))
      (fun _ s₁ hs₁ => dereg s₁ hs₁.1 hs₁.2.1 hs₁.2.2) (fun _ _ => id)
  cases hrole : o.role with
  | autocommitTransaction => exact dereg s h.unlinks ht (isPipeline (by rw [hrole]; rfl))
  | topLevelTransaction => exact ended (by rw [hrole]; rfl)
  | topLevelSubtransaction p => exact ended (by rw [hrole]; rfl)
  | nestedSubtransaction p => exact ended (by rw [hrole]; rfl)
  | transactionGuard p => exact dereg s h.unlinks ht (isPipeline (by rw [hrole]; rfl))
  | pipeline p =>
    -- what `finish` throws is swallowed, and the pipeline is off the stack either way
    have finished (s' : State DB) (hs' : s.Unlinks s' ∧ s'.next a = none) :
        s'.RegisteredWithout a ∧ ∀ x, s.next x = none → s'.next x = none := ⟨hs'.1.1.without hs'.2, hs'.1.2⟩
    simp only [wp_catchAll, wp_pure]
    exact (finishWith_registered hr h ht (isPipeline (by rw [hrole]; rfl))).mono finished

theorem releaseN_registered (n : Nat) : ReleaseRegistered (releaseN W n : Addr → Prog DB Unit) := by
  induction n with
  | zero => exact fun a s h => h.unlinks
  | succ n ih =>
    intro a s h
    simp only [releaseN, wp_bind, wp_get, wp_ite, wp_deref, wp_eraseObject, wp_pure, implies_true, and_true]
    refine ⟨fun hu => ?_, fun _ => h.unlinks⟩
    have hu := (s.unowned_eq_true a).1 hu
    refine wp_mono (destructor_registered ih h hu) (fun _ s' hs' o _ => ?_) (fun _ _ => id)
    have hl : s.Unlinks { s' with objects := s'.objects.erase a } := by
      refine ⟨hs'.1.erase, fun x hx => ?_⟩
      rw [State.next_erase, Function.update_apply, hs'.2 x hx, ite_self]
    cases o.role.previous with
    | none => exact hl
    | some p => exact (ih p _ hl.1).mono fun _ => hl.trans

theorem release_registered : ReleaseRegistered (release W : Addr → Prog DB Unit) := by
  intro a s h
  simp only [release, wp_bind, wp_get]
  exact releaseN_registered _ a s h

private theorem dropHandle_registered (h : s.Registered) (a : Addr) :
    Leaves (dropHandle W a) State.Registered s := by
  simp only [dropHandle, wp_bind, wp_modify]
  have h' : ({ s with held := s.held.erase a } : State DB).Registered := h
  exact (release_registered a _ h').mono fun _ hl => hl.1

private theorem resetTransaction_registered (h : s.Registered) (b : Nat) :
    Leaves (resetTransaction W b) State.Registered s := by
  simp only [resetTransaction, wp_bind, wp_derefBulk, wp_putBulk, implies_true, and_true]
  intro k _
  have h' : ({ s with bulks := s.bulks.insert b { k with transaction := none } } : State DB).Registered := h
  cases k.transaction with
  | none => exact h'
  | some g => exact (release_registered g _ h').mono fun _ hl => hl.1

private theorem resetPrevious_registered (h : s.Registered) (b : Nat) :
    Leaves (resetPrevious W b) State.Registered s := by
  simp only [resetPrevious, wp_bind, wp_derefBulk, wp_putBulk, implies_true, and_true]
  intro k _
  have h' : ({ s with bulks := s.bulks.insert b { k with previous := none } } : State DB).Registered := h
  cases k.previous with
  | none => exact h'
  | some o => exact (release_registered o _ h').mono fun _ hl => hl.1

private theorem resetBoth_registered (h : s.Registered) (b : Nat) :
    wp True (resetTransaction W b)
      (fun _ s' => Leaves (resetPrevious W b) State.Registered s')
      (fun _ => State.Registered) s :=
  wp_mono (resetTransaction_registered h b) (fun _ _ h₁ => resetPrevious_registered h₁ b) (fun _ _ => id)

private theorem destroyMembers_registered (h : s.Registered) (b : Nat) :
    Leaves (destroyMembers W b) State.Registered s := by
  simp only [destroyMembers, wp_bind, wp_modify]
  exact wp_mono (resetBoth_registered h b)
    (fun _ _ h₁ => wp_mono h₁ (fun _ _ h₂ => h₂) (fun _ _ => id)) (fun _ _ => id)

end Release

/-! ### Creating an object -/

section Create

variable {W : World}

/-- The object that is being constructed is the top of the stack. -/
def Pushed (a : Addr) (s : State DB) : Prop :=
  s.Registered ∧ s.current = some a ∧ ∀ o, s.object a = some o → o.role.isPipeline = false

theorem push_pushed {r : Role} (h : s.Registered) (ha : s.free a) (hr : r.previous = s.current)
    (hp : r.isPipeline = false) :
    Pushed a ({ s with objects := s.objects.insert a ⟨r, true⟩, current := some a } : State DB) := by
  refine ⟨h.push ha ((Object.link_transaction hp).trans (by rw [← hr]; rfl)), rfl, fun o ho => ?_⟩
  have hobj : ({ s with objects := s.objects.insert a ⟨r, true⟩ } : State DB).object a = some ⟨r, true⟩ := by
    rw [State.object_insert, if_pos rfl]
  obtain rfl := Option.some.inj (hobj.symm.trans ho)
  exact hp

/-- The object that could not be constructed is removed again. -/
theorem deregister_pushed (h : Pushed a s) :
    wp True (deregister a) (fun _ s' => ({ s' with objects := s'.objects.erase a } : State DB).Registered)
      (fun _ => State.Registered) s :=
  wp_mono (deregister_registered h.1 (fun _ => h.2.1) h.2.2) (fun _ _ hs' => hs'.1.erase) (fun _ _ => False.elim)

theorem newTransactionBase_registered {r : Role} (hr : r.previous = none) (hp : r.isPipeline = false)
    (h : s.Registered) (ha : s.free a) :
    wp True (newTransactionBase a r) (fun _ => Pushed a) (fun _ => State.Registered) s := by
  simp only [newTransactionBase, wp_bind, wp_get, wp_ite, wp_throw, wp_putObject, wp_setCurrent]
  refine ⟨fun _ => h, fun hc => push_pushed h ha ?_ hp⟩
  rw [hr]
  exact (Option.not_isSome_iff_eq_none.1 hc).symm

private theorem direct_registered (h : s.Registered) (ha : s.free a) :
    Leaves (direct a) State.Registered s := by
  simp only [direct, wp_bind, wp_hold]
  exact wp_mono (newTransactionBase_registered rfl rfl h ha) (fun _ _ hs' => hs'.1) (fun _ _ => id)

private theorem transaction_registered (il : IsolationLevel) (am : AccessMode) (h : s.Registered) (ha : s.free a) :
    Leaves (transaction W a il am) State.Registered s := by
  simp only [transaction, wp_bind, wp_catchAll, wp_hold, wp_eraseObject, wp_throw]
  refine wp_mono (newTransactionBase_registered rfl rfl h ha) (fun _ s' hs' => ?_) (fun _ _ => id)
  exact (KeepsHeap.execute W a _).wp_of (fun _ c => hs'.1) (fun e c => deregister_pushed (a := a) hs')

theorem newSubtransactionBase_registered {r : Addr → Role} (hr : ∀ p, (r p).previous = some p)
    (hp : ∀ p, (r p).isPipeline = false) (h : s.Registered) (ha : s.free a) :
    wp True (newSubtransactionBase a r) (fun _ => Pushed a) (fun _ => State.Registered) s := by
  simp only [newSubtransactionBase, wp_bind, wp_get]
  rcases hc : s.current with _ | p
  · exact trivial
  · simp only [wp_derefPointer_some, wp_putObject, wp_setCurrent, implies_true, and_true]
    exact fun _ => push_pushed h ha ((hr p).trans hc.symm) (hp p)

private theorem newSubtransaction_registered {r : Addr → Role} (hr : ∀ p, (r p).previous = some p)
    (hp : ∀ p, (r p).isPipeline = false) (k : Control) (h : s.Registered) (ha : s.free a) :
    Leaves (newSubtransaction W a r k) State.Registered s := by
  simp only [newSubtransaction, unwindSubtransaction, wp_bind, wp_catchAll, wp_hold, wp_throw, wp_deref,
    wp_eraseObject, implies_true, and_true]
  refine wp_mono (newSubtransactionBase_registered hr hp h ha) (fun _ s' hs' => ?_) (fun _ _ => id)
  refine (KeepsHeap.execute W a _).wp_of (fun _ c => hs'.1) (fun e c => ?_)
  refine wp_mono (deregister_pushed (a := a) hs') (fun _ s'' hs'' o _ => ?_) (fun _ _ => id)
  cases o.role.previous with
  | none => exact hs''
  | some p => exact (release_registered p _ hs'').mono fun _ hl => hl.1

private theorem subtransaction_registered (o : Addr) (h : s.Registered) (ha : s.free a) :
    Leaves (subtransaction W o a) State.Registered s := by
  simp only [subtransaction, wp_bind, wp_checkCurrentTransaction, wp_deref, wp_ite, implies_true, and_true]
  exact fun _ _ => ⟨fun _ x _ =>
    ⟨fun _ => newSubtransaction_registered (fun _ => rfl) (fun _ => rfl) _ h ha,
      fun _ => newSubtransaction_registered (fun _ => rfl) (fun _ => rfl) _ h ha⟩, fun _ => h⟩

private theorem pipeline_registered (o : Addr) (h : s.Registered) (ha : s.free a) :
    Leaves (pipeline o a) State.Registered s := by
  simp only [pipeline, wp_bind, wp_checkCurrentTransaction, wp_get, implies_true, and_true]
  refine fun _ _ => ⟨fun hc => ?_, fun _ => h⟩
  simp only [hc.2, wp_derefPointer_some, implies_true, and_true]
  refine fun _ => (KeepsHeap.onConnection _).wp_of (fun _ c => ?_) (fun _ c => h)
  simp only [wp_putObject, wp_setCurrent, wp_hold]
  exact (h.conn c).1.push (o := ⟨.pipeline (some o), true⟩) ha (congrArg some hc.2.symm)

private theorem connectionPipeline_registered {d : Addr} (h : s.Registered) (ho : s.Owned) (hd : s.free d)
    (ha : s.free a) (hda : d ≠ a) :
    Leaves (connectionPipeline W d a) State.Registered s := by
  simp only [connectionPipeline, wp_bind, wp_andFinally]
  refine wp_mono (wp_and (direct_registered h hd) (direct_owned ho hd)) (fun _ s' hs' => ?_) (fun _ _ hs' => hs'.1)
  have ha' : s'.free a := by
    rw [State.free, hs'.2.2 a hda.symm]
    exact ha
  refine (pipeline_registered d hs'.1 ha').mono fun s'' h'' => ?_
  exact dropHandle_registered h'' d

private theorem connectionExecute_registered {d : Addr} (cmd : Command DB) (h : s.Registered) (hd : s.free d) :
    Leaves (connectionExecute W d cmd) State.Registered s := by
  simp only [connectionExecute, wp_bind, wp_andFinally]
  refine wp_mono (direct_registered h hd) (fun _ s' hs' => ?_) (fun _ _ => id)
  refine (KeepsHeap.execute W d cmd).leaves fun c => ?_
  exact dropHandle_registered (hs'.conn c).1 d

private theorem deallocate_registered {d : Addr} (name : String) (h : s.Registered) (hd : s.free d) :
    Leaves (deallocate W d name) State.Registered s := by
  simp only [deallocate, wp_bind, wp_get, wp_ite, wp_throw, wp_modify]
  refine (KeepsHeap.onConnection _).wp_of (fun _ c => ⟨fun _ => ?_, fun _ => h⟩) (fun _ c => h)
  exact connectionExecute_registered _ (h.conn c).1 hd

end Create

/-! ### Table readers and table writers -/

section BulkTransfer

variable {W : World} {b : Nat}

private theorem newBulk_registered {o g : Addr} (reader : Bool) (u : Statement DB) (h : s.Registered)
    (hg : s.free g) :
    Leaves (newBulk W reader o g b u) State.Registered s := by
  simp only [newBulk, newTransactionGuard, wp_bind, wp_catchAll, wp_putBulk, wp_throw]
  refine wp_derefConnection o fun _ _ _ => ?_
  refine wp_mono (newSubtransactionBase_registered (fun _ => rfl) (fun _ => rfl) h hg) (fun _ s' hs' => ?_)
    (fun _ _ => id)
  have fails (s₁ : State DB) (hs₁ : s₁.Registered) :
      Leaves (destroyMembers W b) State.Registered s₁ :=
    destroyMembers_registered hs₁ b
  refine (KeepsHeap.send W g _).wp_of (fun _ c => ?_) (fun e c => fails _ hs'.1)
  rw [wp_ite]
  refine ⟨fun _ => ?_, fun _ => ?_⟩
  · exact wp_readerCheckResult W b (fun c k n _ => hs'.1) (fun c => hs'.1) (fun e c => fails _ hs'.1)
  · exact (KeepsHeap.writerCheckResult W b).wp_of (fun _ c => hs'.1) (fun e c => fails _ hs'.1)

private theorem getRawData_registered (h : s.Registered) :
    Leaves (getRawData W b) State.Registered s := by
  simp only [getRawData, wp_bind, wp_derefBulk, wp_putBulk, implies_true, and_true]
  refine (KeepsHeap.guardOf b).wp_of (fun g c => ?_) (fun _ c => h)
  refine (KeepsHeap.onConnection _).wp_of (fun data c => ?_) (fun _ c => h)
  intro k _
  cases data with
  | some row => exact h
  | none =>
    simp only [wp_bind]
    refine (KeepsHeap.onConnection _).wp_of (fun r c => ?_) (fun _ c => h)
    cases r with
    | none => exact (KeepsHeap.onConnection _).leaves fun c => h
    | some r =>
      simp only [wp_bind, wp_pure]
      exact (KeepsHeap.onConnection _).wp_of (fun _ c => resetBoth_registered (by exact h) b) (fun _ c => h)

private theorem writerCommit_registered (h : s.Registered) :
    Leaves (writerCommit W b) State.Registered s := by
  simp only [writerCommit, wp_bind, wp_pure]
  refine (KeepsHeap.guardOf b).wp_of (fun g c => ?_) (fun _ c => h)
  refine (KeepsHeap.onConnection _).wp_of (fun _ c => ?_) (fun _ c => h)
  refine (KeepsHeap.getResult W g).wp_of (fun r c => ?_) (fun _ c => h)
  exact (KeepsHeap.rowsAffected r).wp_of (fun n c => resetBoth_registered (by exact h) b) (fun _ c => h)

private theorem destroyBulk_registered (h : s.Registered) :
    Leaves (destroyBulk W b) State.Registered s := by
  simp only [destroyBulk, wp_bind, wp_derefBulk, implies_true, and_true]
  intro k _
  split
  · simp only [wp_catchAll, wp_bind, wp_pure]
    exact (KeepsHeap.getResult W _).leaves fun c => destroyMembers_registered (by exact h) b
  · exact destroyMembers_registered h b

end BulkTransfer

/-! ### Runs that end objects in order -/

/-- Only the current transaction is committed or rolled back, and only a pipeline that is current, or that was
finished already, is finished. -/
def Call.InOrder (s : State DB) : Call DB → Prop
  | .commit o => s.current = some o
  | .rollback o => s.current = some o
  | .finish o => s.current = some o ∨ ∀ x, s.object o = some x → x.role = .pipeline none
  | _ => True

instance (s : State DB) (o : Addr) : Decidable (∀ x, s.object o = some x → x.role = .pipeline none) :=
  decidable_of_iff ((s.object o).all (fun x => x.role == .pipeline none) = true) (by simp [Option.all_eq_true])

instance (s : State DB) : (c : Call DB) → Decidable (c.InOrder s)
  | .commit o => inferInstanceAs (Decidable (s.current = some o))
  | .rollback o => inferInstanceAs (Decidable (s.current = some o))
  | .finish o => inferInstanceAs (Decidable (s.current = some o ∨ ∀ x, s.object o = some x → x.role = .pipeline none))
  | .direct _ | .transaction _ _ _ | .connectionPipeline _ _ | .connectionExecute _ _ | .prepare _ _
  | .deallocate _ _ | .enterPipelineMode | .exitPipelineMode | .connectionSync | .subtransaction _ _
  | .pipeline _ _ | .send _ _ | .setSingleRowMode _ | .setChunkMode _ _ | .getResult _ | .consumePipelineSync _
  | .execute _ _ | .sync _ | .consumeSync _ | .copyHandle _ | .dropHandle _ | .tableReader _ _ _ _
  | .tableWriter _ _ _ _ | .getRow _ | .insertRaw _ _ | .writerCommit _ | .destroyBulk _ => inferInstanceAs (Decidable True)

theorem registered_step {W : World} {c : Call DB} (h : s.Registered) (ho : s.Owned) (hc : c.InOrder s)
    (hs : Step W s c s') : s'.Registered := by
  obtain ⟨hl, hs⟩ := hs
  suffices h' : Leaves (perform W c) State.Registered s from
    Outcome.Sat.of_stateLeft h' hs
  have keeps {x : Prog DB Unit} (hx : KeepsHeap x) :
      Leaves x State.Registered s := hx.leaves fun c => h
  cases c with
  | direct a => exact direct_registered h hl
  | transaction a il am => exact transaction_registered il am h hl
  | connectionPipeline d a => exact connectionPipeline_registered h ho hl.1 hl.2.1 hl.2.2
  | connectionExecute d u =>
    show wp True (ignore _) _ _ s
    simp only [ignore, wp_bind, wp_pure]
    exact connectionExecute_registered _ h hl
  | prepare name valid => exact keeps (.onConnection _)
  | deallocate d name => exact deallocate_registered name h hl
  | enterPipelineMode => exact keeps (.onConnection _)
  | exitPipelineMode => exact keeps (.onConnection _)
  | connectionSync => exact keeps (.onConnection _)
  | subtransaction o a => exact subtransaction_registered o h hl.2
  | pipeline o a => exact pipeline_registered o h hl.2
  | send o u => exact keeps (.send W o _)
  | setSingleRowMode o => exact keeps (.setSingleRowMode o)
  | setChunkMode o rows => exact keeps (.setChunkMode o rows)
  | getResult o => exact keeps (.bind (.getResult W o) fun _ => .pure ())
  | consumePipelineSync o => exact keeps (.consumePipelineSync W o)
  | execute o u => exact keeps (.bind (.execute W o _) fun _ => .pure ())
  | commit o =>
    exact (endWith_registered (.vCommit W o) h hc hl.2).mono fun _ hl => hl.1
  | rollback o =>
    exact (endWith_registered (.vRollback W o) h hc hl.2).mono fun _ hl => hl.1
  | sync o => exact keeps (.bind (.derefConnection o) fun _ => .onConnection _)
  | consumeSync o => exact keeps (.consumeSync W o)
  | finish o =>
    have ht : (s.next o).isSome → s.current = some o := by
      intro hn
      refine hc.resolve_right fun hf => ?_
      obtain ⟨x, hx⟩ := Option.isSome_iff_exists.1 (ho.alive o (.inl hl.1))
      rw [State.next_of_object hx, Object.link, hf x hx] at hn
      cases hn
    exact (finishWith_registered release_registered h ht hl.2).mono fun _ hl => hl.1.1
  | copyHandle o => exact h
  | dropHandle o => exact dropHandle_registered h o
  | tableReader o g b u => exact newBulk_registered true u h hl.2.1
  | tableWriter o g b u => exact newBulk_registered false u h hl.2.1
  | getRow b =>
    show wp True (ignore _) _ _ s
    simp only [ignore, wp_bind, wp_pure]
    exact getRawData_registered h
  | insertRaw b data => exact keeps (.bind (.guardOf b) fun _ => .onConnection _)
  | writerCommit b =>
    show wp True (ignore _) _ _ s
    simp only [ignore, wp_bind, wp_pure]
    exact writerCommit_registered h
  | destroyBulk b => exact destroyBulk_registered h

theorem Reaches.registered {W : World} (h : Reaches W Call.InOrder s) : s.Registered := by
  refine (h.invariant (I := fun s => s.Registered ∧ s.Owned) (fun db => ⟨.init db, .init db⟩) ?_).1
  exact fun _ _ _ hi hc hs => ⟨registered_step hi.1 hi.2 hc hs, owned_step hi.2 hs⟩

/-- The current transaction is null, or an object that is alive and whose connection is set; and it is null when no
object is left. -/
def State.CurrentValid (s : State DB) : Prop :=
  (∀ a, s.current = some a → ∃ o, s.object a = some o ∧ o.connected = true) ∧
    ((∀ a, s.object a = none) → s.current = none)

/-- In a run that ends its objects in order, the current transaction is always valid. -/
theorem current_valid {W : World} (h : Reaches W Call.InOrder s) : s.CurrentValid := by
  have hr := h.registered
  refine ⟨fun a ha => ?_, fun hn => hr.null fun a => ?_⟩
  · rw [State.Registered, ha] at hr
    obtain ⟨q, hq⟩ := hr.top
    rcases ho : s.object a with _ | o
    · simp [State.next, ho] at hq
    · refine ⟨o, rfl, ?_⟩
      rw [State.next_of_object ho] at hq
      by_cases hp : o.role.isPipeline = true
      · exact h.owned.pipelines a o ho hp
      · rw [Object.link_transaction (by simpa using hp)] at hq
        by_contra hc
        simp [hc] at hq
  · simp [State.next, hn a]

theorem current_valid_nested :
    ∃ s : State Unit, Reaches .calm Call.InOrder s ∧ s.current = some 2 ∧ s.CurrentValid := by
  obtain ⟨s, hs, hc⟩ := Reaches.of_trace .calm Call.InOrder
    [.direct 1, .subtransaction 1 2, .subtransaction 2 3, .rollback 3, .dropHandle 3, .dropHandle 1] ()
    (P := fun s => s.current = some 2) (by decide +kernel)
  exact ⟨s, hs, hc, current_valid hs⟩

/-- Out of order, it may dangle: the outer transaction is committed while there is an inner one, which makes the outer
one current again when it is destroyed. -/
theorem current_dangles :
    ∃ s : State Unit, Reachable .calm s ∧ s.current = some 1 ∧ s.object 1 = none ∧ ¬ s.CurrentValid := by
  obtain ⟨s, hs, hc, ho⟩ := Reaches.of_trace .calm (fun _ _ => True)
    [.transaction 1 .defaultIsolationLevel .defaultAccessMode, .subtransaction 1 2, .commit 1, .dropHandle 2,
      .dropHandle 1] () (P := fun s => s.current = some 1 ∧ s.object 1 = none) (by decide +kernel)
  refine ⟨s, hs, hc, ho, fun hv => ?_⟩
  obtain ⟨o, ho', _⟩ := hv.1 1 hc
  simp [ho] at ho'

end TaoPQ
