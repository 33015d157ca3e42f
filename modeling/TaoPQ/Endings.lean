import TaoPQ.Closing

/-!
# Ending transactions and large objects in any order

A large object follows the connection of its transaction whenever it refers to one, so whatever it does after the
transaction has ended is undefined, and everything else is defined, in any order (`ended_in_any_order_iff`).  Owners and
calls of `lo_close` are in order in every run in which no number is used again that a large object still refers to.
Programs that end transactions in order make only such runs (`Reaches.fresh_of_orderly`).
-/

namespace TaoPQ

open Exec

section Transactions

variable {DB : Type} {W : World} {s : State DB} {a : Addr} {o : Object}

private theorem vCommit_defined (ho : s.object a = some o) : Defined (vCommit W a) s := by
  have hexec (k : Control) : Defined (do let _ ← execute W a (.control k)) s := control_defined ho k
  simp only [Defined, vCommit, wp_bind, wp_deref, ho, Option.some.injEq, forall_eq', reduceCtorEq, false_implies,
    and_true]
  cases o.role with
  | topLevelTransaction => exact hexec _
  | topLevelSubtransaction p => exact hexec _
  | nestedSubtransaction p => exact hexec _
  | _ => exact trivial

/-- Ending an object that has been ended already follows its empty shared pointer. -/
private theorem endWith_defined_iff {x : Prog DB Unit} (hx : KeepsHeap x) (hd : Defined x s)
    (ho : s.object a = some o) :
    Defined (endWith a x) s ↔ s.live a = true := by
  have hlive : s.live a = o.connected := by rw [State.live, ho, Option.any_some]
  have hchecked : Defined (do checkCurrentTransaction a; x) s := by
    simp only [Defined, wp_bind, wp_checkCurrentTransaction, ho, Option.some.injEq, forall_eq', reduceCtorEq,
      false_implies, and_true, implies_true]
    exact fun _ => hd
  rw [hlive]
  constructor
  · intro hdefined
    by_contra hc
    simp only [Defined, endWith, wp_bind, wp_catchAll, wp_checkCurrentTransaction, ho, Option.some.injEq, forall_eq',
      reduceCtorEq, false_implies, and_true, hc, false_and, not_false_eq_true, true_implies, true_and, vReset,
      derefConnection, wp_deref, wp_ite, wp_undefined] at hdefined
  · intro hc
    simp only [Defined, endWith, wp_bind, wp_catchAll]
    rw [← wp_bind]
    have hheap : KeepsHeap (do checkCurrentTransaction a; x) := .bind (.checkCurrentTransaction a) fun _ => hx
    refine hheap.wp_of_defined hchecked (fun _ c => ?_) fun e c => ?_
    · exact (wp_vReset (s := { s with conn := c }) ho hc).mpr trivial
    · exact (wp_vReset (s := { s with conn := c }) ho hc).mpr trivial

end Transactions

namespace LargeObjects

variable {DB : Type} {W : World} {s s' : LargeObjects DB} {a : Action DB} {c : Call DB} {k : LargeObject} {x y fd : Nat}
  {t : Addr} {r : Reply}

/-! ### What an action uses -/

/-- The transaction whose connection an action uses. -/
def uses (s : LargeObjects DB) : Action DB → Option Addr
  | .call (.commit o) | .call (.rollback o) => some o
  | .call _ => none
  | .openObject t _ _ _ => some t
  | .moveConstruct _ _ => none
  | .moveAssign x _ _ | .close x _ | .operate _ x _ | .destroy x _ => s.transactionOf x
  | .serverCloses _ => none

/-- The transaction whose connection an action uses has not ended. -/
def Live (s : LargeObjects DB) (a : Action DB) : Prop := ∀ t ∈ s.uses a, s.state.live t = true

/-- An action of large objects or of the server, or a call that ends or releases a transaction. -/
def Action.Concerned : Action DB → Prop
  | .call (.commit _) | .call (.rollback _) | .call (.dropHandle _) => True
  | .call _ => False
  | _ => True

/-- A large object whose transaction has not ended refers to the number. -/
def inUse (s : LargeObjects DB) (fd : Nat) : Bool :=
  s.objects.entries.any fun e => e.2.fd = fd && e.2.transaction.any s.state.live

/-- A number is not used again while it is in use. -/
def Fresh (s : LargeObjects DB) : Action DB → Prop
  | .openObject _ _ r fd => r = .done → s.inUse fd = false
  | _ => True

instance (s : LargeObjects DB) (a : Action DB) : Decidable (Live s a) := inferInstanceAs (Decidable (∀ t ∈ _, _))

instance (s : LargeObjects DB) : (a : Action DB) → Decidable (Fresh s a)
  | .openObject _ _ r fd => inferInstanceAs (Decidable (r = .done → s.inUse fd = false))
  | .call _ | .moveConstruct _ _ | .moveAssign _ _ _ | .close _ _ | .operate _ _ _ | .destroy _ _ | .serverCloses _ =>
    inferInstanceAs (Decidable True)

theorem inUse_eq_true_iff : s.inUse fd = true ↔ ∃ y u, s.refers fd y u ∧ s.state.live u = true := by
  simp only [inUse, List.any_eq_true, Bool.and_eq_true, decide_eq_true_eq, Option.any_eq_true]
  constructor
  · rintro ⟨⟨y, p, n⟩, he, rfl, u, rfl, hu⟩
    exact ⟨y, u, AList.mem_lookup_iff.mpr he, hu⟩
  · rintro ⟨y, u, hy, hu⟩
    exact ⟨⟨y, some u, fd⟩, AList.mem_lookup_iff.mp hy, rfl, u, rfl, hu⟩

/-- A number that may be given is not that of an open descriptor. -/
private theorem closed_of_mayGive (hfd : s.mayGive fd = true) : ∀ d ∈ (s.descriptors fd).head?, d.isOpen = false := by
  intro d hd
  rw [mayGive, Option.mem_def.mp hd, Option.all_some, Bool.and_eq_true] at hfd
  simpa using hfd.1

/-! ### What is defined -/

/-- The calls that end a transaction follow its connection. -/
private theorem endWith_live {z : Prog DB Unit} (h : s.Tidy) (hz : KeepsHeap z)
    (hd : ∀ o, s.state.object t = some o → Defined z s.state) (ht : s.state.holdsTransaction t) :
    Defined (endWith t z) s.state ↔ s.state.live t = true := by
  obtain ⟨o, ho⟩ := Option.isSome_iff_exists.mp (h.owned.alive t (.inl ht.1))
  exact endWith_defined_iff hz (hd o ho) ho

theorem defined_call_iff : Defined (perform W (.call c)) s ↔ Defined (TaoPQ.perform W c) s.state := by
  rw [Defined, perform, wp_bind, wp_modify, onState, wp_zoom]

theorem call_defined_iff (h : s.Tidy) (hl : Legal s (.call c)) (hc : (Action.call c).Concerned) :
    Defined (perform W (.call c)) s ↔ Live s (.call c) := by
  obtain ⟨hcall, hdropped⟩ := hl
  rw [defined_call_iff]
  cases c with
  | commit o =>
    refine (endWith_live h (.vCommit W o) (fun _ ho => vCommit_defined ho) hcall).trans ?_
    simp [Live, uses]
  | rollback o =>
    refine (endWith_live h (.vRollback W o) (fun _ ho => vRollback_defined ho) hcall).trans ?_
    simp [Live, uses]
  | dropHandle o =>
    have hdrop := drop_spec (W := W) h (hdropped o rfl)
    rw [onState, wp_zoom] at hdrop
    refine iff_of_true (wp_mono hdrop (fun _ _ _ => trivial) fun _ _ => False.elim) fun t ht => ?_
    cases ht
  | _ => exact hc.elim

/-- Whoever calls `close` uses the connection, if the large object refers to a transaction. -/
private theorem live_of_close {Q : Unit → LargeObjects DB → Prop} {E : Exn → LargeObjects DB → Prop}
    (hd : wp False (close W x r) Q E s) : ∀ t ∈ s.transactionOf x, s.state.live t = true := by
  intro t ht
  obtain ⟨k, hk, hkt⟩ := Option.bind_eq_some_iff.mp ht
  rw [close, wp_bind, wp_deref_eq hk] at hd
  simp only [hkt, wp_bind, wp_underlyingRawPtr] at hd
  by_contra hdead
  exact hd.2 (by simpa using hdead)

private theorem live_of_operate {f : Operation} (hd : Defined (operate f x r) s) :
    ∀ t ∈ s.transactionOf x, s.state.live t = true := by
  intro t ht
  obtain ⟨k, hk, hkt⟩ := Option.bind_eq_some_iff.mp ht
  rw [Defined, operate, wp_bind, wp_deref_eq hk] at hd
  simp only [hkt, wp_bind, wp_underlyingRawPtr] at hd
  by_contra hdead
  exact hd.2 (by simpa using hdead)

private theorem live_of_openObject (hd : Defined (openObject W t x r fd) s) : s.state.live t = true := by
  rw [Defined, openObject, wp_bind, onState, wp_zoom, wp_hold, wp_bind, wp_underlyingRawPtr] at hd
  by_contra hdead
  exact hd.2 (by simpa [State.live, State.object] using hdead)

/-- An action of which the behaviour is defined uses a connection that is set. -/
theorem live_of_defined (h : s.Tidy) (hl : Legal s a) (hc : a.Concerned) (hd : Defined (perform W a) s) :
    Live s a := by
  cases a with
  | call c => exact (call_defined_iff h hl hc).mp hd
  | openObject u x r fd =>
    intro t ht
    obtain rfl := Option.some.inj ht
    exact live_of_openObject hd
  | moveConstruct x y =>
    intro t ht
    cases ht
  | moveAssign x y r =>
    rw [Defined, perform, moveAssign, wp_bind] at hd
    exact live_of_close hd
  | close x r => exact live_of_close hd
  | operate f x r => exact live_of_operate hd
  | destroy x r =>
    rw [Defined, perform, destroy, wp_bind, wp_catchAll] at hd
    exact live_of_close hd
  | serverCloses fd =>
    intro t ht
    cases ht

/-! ### What a step keeps -/

/-- An action other than a call is defined if it uses a connection that is set. -/
theorem perform_spec (h : s.Tidy) (hl : Legal s a) (hlive : Live s a) (hfresh : Fresh s a)
    (ha : ∀ c, a ≠ .call c) :
    wp False (perform W a) (fun _ s' => s'.Tidy) (fun _ s' => s'.Tidy) s := by
  have returns {z : Exec (LargeObjects DB) Exn Unit} (hz : wp False z (fun _ s' => s'.Tidy) (fun _ _ => False) s) :
      wp False z (fun _ s' => s'.Tidy) (fun _ s' => s'.Tidy) s :=
    wp_mono hz (fun _ _ => id) fun _ _ => False.elim
  cases a with
  | call c => exact absurd rfl (ha c)
  | openObject t x r fd =>
    refine openObject_spec h (hlive t rfl) fun hr =>
      h.openObject hl.2.1 (closed_of_mayGive (hl.2.2 hr)) (fun y u hy hu => ?_) (hlive t rfl)
    exact absurd ((hfresh hr).symm.trans (inUse_eq_true_iff.mpr ⟨y, u, hy, hu⟩)) (by decide)
  | moveConstruct x y => exact returns (moveConstruct_spec h hl.1 hl.2)
  | moveAssign x y r => exact moveAssign_spec h hl.1 hl.2 hlive
  | close x r =>
    obtain ⟨k, hk⟩ := Option.isSome_iff_exists.mp hl
    refine wp_mono (close_spec h hk fun t ht => hlive t ?_) (fun _ s' hs' => hs'.1) fun _ s' hs' => hs'.1
    exact Option.bind_eq_some_iff.mpr ⟨k, hk, ht⟩
  | operate f x r =>
    obtain ⟨t, ht⟩ := Option.isSome_iff_exists.mp hl
    exact operate_spec h f ht (hlive t ht)
  | destroy x r => exact returns (destroy_spec h hl hlive)
  | serverCloses fd => exact h.expired fd

theorem call_spec (h : s.Tidy) (hl : Legal s (.call c)) : Leaves (perform W (.call c)) Tidy s := by
  obtain ⟨hcall, hdropped⟩ := hl
  have howned : Leaves (TaoPQ.perform W c) State.Owned s.state :=
    Outcome.Sat.of_forall_stateLeft fun st hst => owned_step h.owned ⟨hcall, hst⟩
  have hkeeps : ∀ t n, n < s.references t →
      Leaves (TaoPQ.perform W c) (fun st => n < st.held.count t ∧ (s.state.over t → st.over t)) s.state := by
    intro t n hn
    have hheld := h.held t
    refine perform_keeps h.owned hcall (fun hdrop => ?_) (Nat.lt_of_lt_of_le hn hheld)
    have hother := hdropped t (by rw [hdrop]; rfl)
    omega
  rw [perform, leaves_bind, wp_modify, onState, Leaves, wp_zoom]
  exact (h.leaves howned hkeeps).mono fun st hst => ⟨hst.owned, hst.held, hst.accounted⟩

theorem tidy_step (h : s.Tidy) (hfresh : Fresh s a) (hs : step W s a = some s') : s'.Tidy := by
  unfold step at hs
  split at hs
  · rename_i hl
    suffices hleaves : Leaves (perform W a) Tidy s from Outcome.Sat.of_stateLeft hleaves hs
    by_cases hcall : ∃ c, a = .call c
    · obtain ⟨c, rfl⟩ := hcall
      exact call_spec h hl
    · have hnot : ∀ c, a ≠ .call c := fun c hc => hcall ⟨c, hc⟩
      have hconcerned : a.Concerned := by
        cases a with
        | call c => exact absurd rfl (hnot c)
        | _ => exact trivial
      -- an action that left a state was defined
      have hd : Defined (perform W a) s := defined_iff_stateLeft.mpr (Option.isSome_of_mem hs)
      exact wp_weaken (perform_spec h hl (live_of_defined h hl hconcerned hd) hfresh hnot)
  · cases hs

theorem Reaches.tidy {db : DB} (h : Reaches W db Fresh s) : s.Tidy :=
  Run.invariant (Tidy.init db) (fun _ _ _ htidy ha hs => tidy_step htidy ha hs) h

/-! ### Every run -/

/-- The large object owns the descriptor: it refers to the number, with the transaction that was passed when the
descriptor was opened, or at least with one that has not ended. -/
def Owns (s : LargeObjects DB) (x fd : Nat) (d : Descriptor) : Prop :=
  ∃ t, s.refers fd x t ∧ (t = d.transaction ∨ s.state.live t = true)

/-- An open descriptor has one owner at most, `lo_close` is not called again after it succeeded, and it was called for
every descriptor to which no large object refers any more. -/
structure Proper (s : LargeObjects DB) : Prop where
  owner : ∀ fd, ∀ d ∈ s.descriptors fd, d.isOpen = true → ∀ x y, s.Owns x fd d → s.Owns y fd d → x = y
  closedLast : ∀ fd, ∀ d ∈ s.descriptors fd, true ∉ d.closes.tail
  called : ∀ fd, ∀ d ∈ s.descriptors fd, (¬ ∃ x, s.refers fd x d.transaction) → d.closes ≠ []

/-- An open descriptor is the latest one of its number. -/
private theorem Tidy.latest (h : s.Tidy) {d : Descriptor} (hd : d ∈ s.descriptors fd) (hopen : d.isOpen = true) :
    d ∈ (s.descriptors fd).head? := by
  have hpast := (h.accounted fd).past
  cases hds : s.descriptors fd with
  | nil =>
    rw [hds] at hd
    cases hd
  | cons e ds =>
    rw [hds] at hd hpast
    rcases List.mem_cons.mp hd with rfl | hd
    · rfl
    · exact absurd (hopen.symm.trans (hpast d hd)) (by decide)

theorem Tidy.proper (h : s.Tidy) : s.Proper := by
  constructor
  · intro fd d hd hopen
    have hhead := h.latest hd hopen
    -- the transaction is the one that was passed
    have hpassed : ∀ x, s.Owns x fd d → s.refers fd x d.transaction := by
      rintro x ⟨t, hx, rfl | hlive⟩
      · exact hx
      · obtain ⟨e, he, het, -⟩ := (h.accounted fd).latest x t hx hlive
        obtain rfl := Option.some.inj (he.symm.trans hhead)
        exact het ▸ hx
    exact fun x y hx hy => (h.accounted fd).sole x y d.transaction (hpassed x hx) (hpassed y hy)
  · exact fun fd d hd => ((h.accounted fd).traced d hd).closedLast
  · exact fun fd d hd hnobody hcalls => hnobody (((h.accounted fd).traced d hd).owned hcalls)

/-- A large object is opened, and `lo_open` succeeds. -/
private theorem openObject_opens :
    Leaves (openObject W t x .done fd)
      (fun s' => s' = ((s.withHandle t).withOpen t fd).withObject x ⟨some t, fd⟩) s := by
  rw [Leaves, openObject, wp_bind, onState, wp_zoom, wp_hold, wp_bind, wp_underlyingRawPtr]
  exact ⟨fun _ => rfl, fun _ => trivial⟩

/-- Where the number is in use, two large objects own the new descriptor. -/
private theorem not_proper_of_inUse (hx : s.object x = none) (hfd : s.inUse fd = true)
    (hs : (openObject W t x .done fd s).stateLeft = some s') : ¬ s'.Proper := by
  obtain ⟨y, u, hy, hu⟩ := inUse_eq_true_iff.mp hfd
  obtain rfl := Outcome.Sat.of_stateLeft openObject_opens hs
  intro hproper
  have hyx : y ≠ x := by
    rintro rfl
    rw [refers, hx] at hy
    cases hy
  refine hyx (hproper.owner fd ⟨t, s.state.currentBlock, true, []⟩ ?_ rfl y x ⟨u, ?_, .inr hu⟩ ⟨t, ?_, .inl rfl⟩)
  · show _ ∈ Function.update s.descriptors fd _ fd
    rw [Function.update_self]
    exact List.mem_cons_self
  · rw [refers, object_withObject, if_neg hyx]
    exact hy
  · rw [refers, object_withObject, if_pos rfl]

/-- A step keeps descriptors and large objects in order exactly when it does not open a number that is in use. -/
theorem proper_step_iff (h : s.Tidy) (hs : step W s a = some s') : s'.Proper ↔ Fresh s a := by
  constructor
  · intro hproper
    unfold step at hs
    split at hs
    · rename_i hl
      cases a with
      | openObject t x r fd =>
        rintro rfl
        by_contra hused
        exact not_proper_of_inUse hl.2.1 (by simpa using hused) hs hproper
      | _ => exact trivial
    · cases hs
  · exact fun hfresh => (tidy_step h hfresh hs).proper

/-- An action of large objects, or the end of a transaction. -/
theorem defined_iff (h : s.Tidy) (hl : Legal s a) (hc : a.Concerned) :
    Defined (perform W a) s ↔ Live s a := by
  refine ⟨live_of_defined h hl hc, fun hlive => ?_⟩
  cases a with
  | call c => exact (call_defined_iff h hl hc).mpr hlive
  | openObject t x r fd =>
    have hspec : wp False (openObject W t x r fd) (fun _ _ => True) (fun _ s' => s'.Tidy) s :=
      openObject_spec h (hlive t rfl) fun _ => trivial
    exact wp_mono hspec (fun _ _ => id) fun _ _ _ => trivial
  | serverCloses fd => exact trivial
  | _ =>
    refine wp_mono (perform_spec h hl hlive trivial ?_) (fun _ _ _ => trivial) fun _ _ _ => trivial
    rintro c ⟨⟩

/-- As long as no number is used again while it is in use, large objects and transactions can be ended in any order,
and exactly those actions are undefined that use the connection of a transaction that has ended. -/
theorem ended_in_any_order_iff {db : DB} (h : Reaches W db Fresh s) :
    s.Proper ∧ (∀ a, Legal s a → a.Concerned → (Defined (perform W a) s ↔ Live s a)) ∧
      ∀ a s', step W s a = some s' → (s'.Proper ↔ Fresh s a) :=
  ⟨h.tidy.proper, fun _ hl hc => defined_iff h.tidy hl hc, fun _ _ hs => proper_step_iff h.tidy hs⟩

/-- Two large objects are moved around, with a failing `lo_close` on the way.  The last one keeps the transaction. -/
theorem moved_and_ended : ∃ s : LargeObjects Unit, Reaches .calm () Fresh s ∧ s.object 2 = some ⟨some 1, 1⟩ ∧
    (s.descriptors 0).map Descriptor.closes = [[true, false]] ∧ s.Proper ∧
    Defined (perform .calm (.destroy 2 .error)) s := by
  obtain ⟨s, hs, hobject, hcloses, hl, hlive⟩ := Run.of_trace (init ()) (step .calm) Fresh
    [.call (.transaction 1 .defaultIsolationLevel .defaultAccessMode), .openObject 1 0 .done 0, .openObject 1 1 .done 1,
      .moveConstruct 2 0, .moveAssign 2 1 .error, .moveAssign 2 1 .done, .call (.dropHandle 1)]
    (P := fun s => s.object 2 = some ⟨some 1, 1⟩ ∧ (s.descriptors 0).map Descriptor.closes = [[true, false]] ∧
      Legal s (.destroy 2 .error) ∧ Live s (.destroy 2 .error)) (by decide +kernel)
  have hends := ended_in_any_order_iff hs
  exact ⟨s, hs, hobject, hcloses, hends.1, (hends.2.1 _ hl trivial).mpr hlive⟩

/-- A transaction is committed before a large object is destroyed: the destructor follows an empty shared pointer. -/
theorem destroyed_after_commit : ∃ s : LargeObjects Unit, Reaches .calm () Fresh s ∧ Legal s (.destroy 0 .done) ∧
    s.state.live 1 = false ∧ ¬ Defined (perform .calm (.destroy 0 .done)) s := by
  obtain ⟨s, hs, hl, hdead, hundefined⟩ := Run.of_trace (init ()) (step .calm) Fresh
    [.call (.transaction 1 .defaultIsolationLevel .defaultAccessMode), .openObject 1 0 .done 0, .call (.commit 1)]
    (P := fun s => Legal s (.destroy 0 .done) ∧ s.state.live 1 = false ∧
      (perform .calm (.destroy 0 .done) s).stateLeft.isSome = false) (by decide +kernel)
  refine ⟨s, hs, hl, hdead, fun hd => ?_⟩
  exact absurd ((defined_iff_stateLeft.mp hd).symm.trans hundefined) (by decide)

/-- A large object is opened with an outer transaction, and the inner one is rolled back, which closes the descriptor.
The number is used again, and after both large objects are closed, `lo_close` was called twice. -/
theorem number_used_again : ∃ s : LargeObjects Unit, Reaches .calm () (fun _ _ => True) s ∧ ¬ s.Proper := by
  obtain ⟨s, hs, hcloses⟩ := Run.of_trace (init ()) (step .calm) (fun _ _ => True)
    [.call (.transaction 1 .defaultIsolationLevel .defaultAccessMode), .call (.subtransaction 1 2),
      .openObject 1 0 .done 0, .call (.rollback 2), .serverCloses 0, .openObject 1 1 .done 0, .close 0 .done,
      .close 1 .done]
    (P := fun s => ∃ d ∈ s.descriptors 0, true ∈ d.closes.tail) (by decide +kernel)
  obtain ⟨d, hd, hagain⟩ := hcloses
  exact ⟨s, hs, fun hproper => hproper.closedLast 0 d hd hagain⟩

/-! ### Transactions that are ended in order -/

/-- Large objects are opened in the block of the current transaction, and only what is current is committed, rolled back
or finished. -/
def Orderly (s : LargeObjects DB) : Action DB → Prop
  | .call c => c.InOrder s.state
  | .openObject t _ _ _ => s.state.currentBlock = some t
  | _ => True

/-- Descriptors were opened in the block of the transaction that was passed, and transactions were ended in order. -/
def Level (s : LargeObjects DB) : Prop :=
  s.disordered = false ∧ ∀ fd, ∀ d ∈ s.descriptors fd, d.block = some d.transaction

instance : IsPreorder (LargeObjects DB) fun s s' => s.Level → s'.Level where
  refl _ := id
  trans _ _ _ h h' := h' ∘ h

namespace Level

/-- The code keeps large objects level. -/
abbrev Kept {α : Type} (z : Exec (LargeObjects DB) Exn α) : Prop := Follows (fun s s' => s.Level → s'.Level) z

theorem onState {α : Type} (z : Prog DB α) : Kept (onState z) := by
  have hany : Follows (fun _ _ => True) z := fun _ => wp_trivial (fun _ _ => trivial) fun _ _ => trivial
  exact .zoom hany fun _ _ _ => id

theorem deref (x : Nat) : Kept (deref x : Exec (LargeObjects DB) Exn LargeObject) := fun _ =>
  wp_deref.mpr ⟨fun _ _ => id, fun _ => trivial⟩

theorem put (x : Nat) (k : LargeObject) : Kept (put x k : Exec (LargeObjects DB) Exn Unit) := .modify fun _ => id

theorem answerFor (fd : Nat) (r : Reply) : Kept (answerFor fd r : Exec (LargeObjects DB) Exn Bool) := fun _ =>
  answerFor_spec id fun _ => id

/-- The descriptors of one number are others. -/
theorem update (h : s.Level) (fd : Nat) {ds : List Descriptor} (hds : ∀ d ∈ ds, d.block = some d.transaction) :
    ({ s with descriptors := Function.update s.descriptors fd ds } : LargeObjects DB).Level := by
  refine ⟨h.1, fun n => ?_⟩
  show ∀ d ∈ Function.update s.descriptors fd ds n, d.block = some d.transaction
  by_cases hn : n = fd
  · subst hn
    rwa [Function.update_self]
  · rw [Function.update_of_ne hn]
    exact h.2 n

/-- The latest descriptor of a number is changed, but not where it was opened. -/
theorem modifyHead (h : s.Level) (fd : Nat) {f : Descriptor → Descriptor}
    (hf : ∀ d, (f d).transaction = d.transaction ∧ (f d).block = d.block) :
    ({ s with descriptors :=
      Function.update s.descriptors fd ((s.descriptors fd).modifyHead f) } : LargeObjects DB).Level := by
  refine h.update fd ?_
  have hlevel := h.2 fd
  cases hds : s.descriptors fd with
  | nil => exact fun d hd => absurd hd List.not_mem_nil
  | cons e ds =>
    rw [hds] at hlevel
    refine List.forall_mem_cons.mpr ⟨?_, fun d hd => hlevel d (List.mem_cons_of_mem e hd)⟩
    rw [(hf e).1, (hf e).2]
    exact hlevel e List.mem_cons_self

theorem withClose (h : s.Level) (fd : Nat) (ok : Bool) : (s.withClose fd ok).Level :=
  h.modifyHead fd fun _ => ⟨rfl, rfl⟩

theorem loClose (fd : Nat) (r : Reply) : Kept (loClose fd r : Exec (LargeObjects DB) Exn Bool) := fun _ =>
  loClose_spec (fun h => withClose h fd true) fun _ h => withClose h fd false

theorem resetTransaction (x : Nat) : Kept (resetTransaction W x : Exec (LargeObjects DB) Exn Unit) :=
  .bind (deref x) fun k => .bind (put x _) fun _ => by
    cases k.transaction with
    | none => exact .pure _
    | some t => exact onState _

theorem close (x : Nat) (r : Reply) : Kept (close W x r : Exec (LargeObjects DB) Exn Unit) :=
  .bind (deref x) fun k => by
    cases k.transaction with
    | none => exact .pure _
    | some t =>
      refine .bind (onState _) fun _ => .bind (loClose k.fd r) fun ok => ?_
      cases ok with
      | true => exact resetTransaction x
      | false => exact .throw _

theorem moveConstruct (x y : Nat) : Kept (moveConstruct x y : Exec (LargeObjects DB) Exn Unit) :=
  .bind (deref y) fun _ => .bind (put y _) fun _ => put x _

theorem moveAssign (x y : Nat) (r : Reply) : Kept (moveAssign W x y r : Exec (LargeObjects DB) Exn Unit) :=
  .bind (close x r) fun _ => .bind (deref y) fun _ => .bind (put y _) fun _ => put x _

theorem operate (f : Operation) (x : Nat) (r : Reply) : Kept (operate f x r : Exec (LargeObjects DB) Exn Unit) :=
  .bind (deref x) fun k => by
    cases k.transaction with
    | none => exact .undefined
    | some t => exact .bind (onState _) fun _ => .bind (answerFor k.fd r) fun ok => .ite (.pure _) (.throw _)

theorem destroy (x : Nat) (r : Reply) : Kept (destroy W x r : Exec (LargeObjects DB) Exn Unit) :=
  .bind (.catchAll (close x r) fun _ => .pure _) fun _ => .bind (resetTransaction x) fun _ => .modify fun _ => id

theorem openObject (h : s.Level) (ht : s.state.currentBlock = some t) : Leaves (openObject W t x r fd) Level s := by
  rw [Leaves, LargeObjects.openObject, wp_bind, LargeObjects.onState, wp_zoom, wp_hold, wp_bind, wp_underlyingRawPtr]
  refine ⟨fun _ => ?_, fun _ => trivial⟩
  rw [wp_bind]
  refine loOpen_spec (fun _ => h.update fd (List.forall_mem_cons.mpr ⟨ht, h.2 fd⟩)) fun c => ?_
  · rw [wp_bind]
    exact (onState (dropHandle W t)).wp_of (fun _ _ hs' => hs' h) fun _ _ hs' => hs' h

theorem call (h : s.Level) (hc : c.InOrder s.state) : Leaves (perform W (.call c)) Level s := by
  rw [perform, leaves_bind, wp_modify]
  refine (onState (TaoPQ.perform W c)).leaves fun _ hs' => hs' ⟨?_, h.2⟩
  show (s.disordered || !decide (c.InOrder s.state)) = false
  rw [h.1, decide_eq_true hc]
  rfl

theorem perform (h : s.Level) (ha : Orderly s a) : Leaves (perform W a) Level s := by
  cases a with
  | call c => exact call h ha
  | openObject t x r fd => exact openObject h ha
  | moveConstruct x y => exact (moveConstruct x y).leaves fun _ hs' => hs' h
  | moveAssign x y r => exact (moveAssign x y r).leaves fun _ hs' => hs' h
  | close x r => exact (close x r).leaves fun _ hs' => hs' h
  | operate f x r => exact (operate f x r).leaves fun _ hs' => hs' h
  | destroy x r => exact (destroy x r).leaves fun _ hs' => hs' h
  | serverCloses fd => exact h.modifyHead fd fun _ => ⟨rfl, rfl⟩

/-- Where all is in order, the server does not give a number to which a large object still refers. -/
theorem fresh (h : s.Level) (htidy : s.Tidy) (hl : Legal s a) : Fresh s a := by
  cases a with
  | openObject t x r fd =>
    intro hr
    by_contra hused
    obtain ⟨y, u, hy, hu⟩ := inUse_eq_true_iff.mp (by simpa using hused)
    obtain ⟨d, hd, hdu, hcloses⟩ := (htidy.accounted fd).latest y u hy hu
    have hgive := hl.2.2 hr
    rw [mayGive, Option.mem_def.mp hd, Option.all_some, h.1, h.2 fd d (List.mem_of_mem_head? hd), hdu, Option.all_some,
      hu] at hgive
    simp [hcloses] at hgive
  | _ => exact trivial

end Level

/-- A program that opens large objects in the block of the current transaction, and ends transactions in order, never
meets a number that is in use. -/
theorem Reaches.fresh_of_orderly {db : DB} (h : Reaches W db Orderly s) : Reaches W db Fresh s := by
  refine Run.mono_of_invariant (I := fun s => s.Tidy ∧ s.Level) ⟨Tidy.init db, rfl, fun _ _ hd => ?_⟩ ?_ h
  · exact absurd hd List.not_mem_nil
  · intro s a s' hI ha hs
    obtain ⟨htidy, hlevel⟩ := hI
    have hsteps := hs
    unfold step at hs
    split at hs
    · rename_i hl
      have hfresh := hlevel.fresh htidy hl
      have hleaves := Level.perform (W := W) hlevel ha
      exact ⟨⟨tidy_step htidy hfresh hsteps, Outcome.Sat.of_stateLeft hleaves hs⟩, hfresh⟩
    · cases hs

end LargeObjects

end TaoPQ
