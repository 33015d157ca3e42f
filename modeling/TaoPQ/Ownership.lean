import TaoPQ.Heap

/-!
# Owners keep objects alive

In every run, in whatever order the calls are made, every object that somebody owns is alive (`State.Owned`): a
destructor runs only when the last owner has let go.  Releasing an object never adds an owner (`State.Loosens`),
which is what lets the destructors call each other.
-/

namespace TaoPQ

open Exec

variable {DB : Type} {s s' : State DB} {a : Addr} {o : Object}

namespace State

/-- Every owned object is alive, and the connection of a pipeline is never reset. -/
structure Owned (s : State DB) : Prop where
  alive : ∀ a, s.Owns a → (s.object a).isSome
  pipelines : ∀ a o, s.object a = some o → o.role.isPipeline = true → o.connected = true

/-- Nobody has become an owner. -/
def Loosens (s s' : State DB) : Prop := s'.Owned ∧ ∀ a, s'.Owns a → s.Owns a

theorem Owned.init (db : DB) : (State.init db).Owned := by
  refine ⟨fun a h => ?_, fun a o h => ?_⟩
  · rcases h with h | ⟨x, o, h, _⟩ | ⟨b, k, h, _⟩
    · exact absurd h (by simp [State.init])
    · exact absurd h (by simp [State.init, object])
    · exact absurd h (by simp [State.init, bulk])
  · exact absurd h (by simp [State.init, object])

theorem Owned.loosens (h : s.Owned) : s.Loosens s := ⟨h, fun _ => id⟩

theorem Loosens.trans {s'' : State DB} (h : s.Loosens s') (h' : s'.Loosens s'') : s.Loosens s'' :=
  ⟨h'.1, fun a ha => h.2 a (h'.2 a ha)⟩

theorem Owned.conn (h : s.Owned) (c : Connection DB) : s.Loosens { s with conn := c } :=
  ⟨⟨h.alive, h.pipelines⟩, fun _ => id⟩

theorem Owned.current (h : s.Owned) (p : Option Addr) : s.Loosens { s with current := p } :=
  ⟨⟨h.alive, h.pipelines⟩, fun _ => id⟩

/-- Placing an object, which may own what is owned already, or itself alive. -/
theorem Owned.put (h : s.Owned) (hp : ∀ p, o.role.previous = some p → (s.object p).isSome)
    (hc : o.role.isPipeline = true → o.connected = true) :
    ({ s with objects := s.objects.insert a o } : State DB).Owned := by
  have alive (x : Addr) (hx : (s.object x).isSome) :
      (({ s with objects := s.objects.insert a o } : State DB).object x).isSome := by
    rw [object_insert]
    split
    · rfl
    · exact hx
  refine ⟨fun x hx => ?_, fun x y hx hy => ?_⟩
  · rcases hx with hx | ⟨y, z, hy, hz⟩ | hx
    · exact alive x (h.alive x (.inl hx))
    · rw [object_insert] at hy
      split at hy
      · obtain rfl := Option.some.inj hy
        exact alive x (hp x hz)
      · exact alive x (h.alive x (.inr (.inl ⟨y, z, hy, hz⟩)))
    · exact alive x (h.alive x (.inr (.inr hx)))
  · rw [object_insert] at hx
    split at hx
    · obtain rfl := Option.some.inj hx
      exact hc hy
    · exact h.pipelines x y hx hy

/-- Changing an object that is there, so that it owns no more than before. -/
theorem Owned.change (h : s.Owned) (o' : Object) (ho : s.object a = some o)
    (hp : ∀ p, o'.role.previous = some p → o.role.previous = some p)
    (hc : o'.role.isPipeline = true → o'.connected = true) :
    s.Loosens { s with objects := s.objects.insert a o' } := by
  refine ⟨h.put (fun p hp' => h.alive p (.inr (.inl ⟨a, o, ho, hp p hp'⟩))) hc, fun x hx => ?_⟩
  rcases hx with hx | ⟨y, z, hy, hz⟩ | hx
  · exact .inl hx
  · rw [object_insert] at hy
    split at hy
    · obtain rfl := Option.some.inj hy
      exact .inr (.inl ⟨a, o, ho, hp x hz⟩)
    · exact .inr (.inl ⟨y, z, hy, hz⟩)
  · exact .inr (.inr hx)

theorem Owned.erase (h : s.Owned) (ha : ¬ s.Owns a) : s.Loosens { s with objects := s.objects.erase a } := by
  have owns : ∀ x, ({ s with objects := s.objects.erase a } : State DB).Owns x → s.Owns x := by
    rintro x (hx | ⟨y, z, hy, hz⟩ | hx)
    · exact .inl hx
    · rw [object_erase] at hy
      split at hy
      · cases hy
      · exact .inr (.inl ⟨y, z, hy, hz⟩)
    · exact .inr (.inr hx)
  refine ⟨⟨fun x hx => ?_, fun x y hx hy => ?_⟩, owns⟩
  · rw [object_erase, if_neg]
    · exact h.alive x (owns x hx)
    · rintro rfl
      exact ha (owns x hx)
  · rw [object_erase] at hx
    split at hx
    · cases hx
    · exact h.pipelines x y hx hy

theorem Owned.hold (h : s.Owned) (ha : s.object a = some o) : ({ s with held := a :: s.held } : State DB).Owned := by
  refine ⟨fun x hx => ?_, h.pipelines⟩
  rcases hx with hx | hx
  · rcases List.mem_cons.1 hx with rfl | hx
    · exact Option.isSome_of_mem ha
    · exact h.alive x (.inl hx)
  · exact h.alive x (.inr hx)

theorem Owned.drop (h : s.Owned) (a : Addr) : s.Loosens { s with held := s.held.erase a } := by
  have owns : ∀ x, ({ s with held := s.held.erase a } : State DB).Owns x → s.Owns x := by
    rintro x (hx | hx)
    · exact .inl (List.mem_of_mem_erase hx)
    · exact .inr hx
  exact ⟨⟨fun x hx => h.alive x (owns x hx), h.pipelines⟩, owns⟩

theorem Owned.putBulk {b : Nat} {k : Bulk} (h : s.Owned)
    (hk : ∀ p, k.previous = some p ∨ k.transaction = some p → (s.object p).isSome) :
    ({ s with bulks := s.bulks.insert b k } : State DB).Owned := by
  refine ⟨fun x hx => ?_, h.pipelines⟩
  rcases hx with hx | hx | ⟨b', k', hb, hp⟩
  · exact h.alive x (.inl hx)
  · exact h.alive x (.inr (.inl hx))
  · rw [bulk_insert] at hb
    split at hb
    · obtain rfl := Option.some.inj hb
      exact hk x hp
    · exact h.alive x (.inr (.inr ⟨b', k', hb, hp⟩))

theorem Owned.changeBulk {b : Nat} {k : Bulk} (h : s.Owned) (k' : Bulk) (hk : s.bulk b = some k)
    (hp : ∀ p, k'.previous = some p ∨ k'.transaction = some p → k.previous = some p ∨ k.transaction = some p) :
    s.Loosens { s with bulks := s.bulks.insert b k' } := by
  refine ⟨h.putBulk fun p hp' => h.alive p (.inr (.inr ⟨b, k, hk, hp p hp'⟩)), fun x hx => ?_⟩
  rcases hx with hx | hx | ⟨b', k'', hb, hx⟩
  · exact .inl hx
  · exact .inr (.inl hx)
  · rw [bulk_insert] at hb
    split at hb
    · obtain rfl := Option.some.inj hb
      exact .inr (.inr ⟨b, k, hk, hp x hx⟩)
    · exact .inr (.inr ⟨b', k'', hb, hx⟩)

theorem Owned.eraseBulk (h : s.Owned) (b : Nat) : s.Loosens { s with bulks := s.bulks.erase b } := by
  have owns : ∀ x, ({ s with bulks := s.bulks.erase b } : State DB).Owns x → s.Owns x := by
    rintro x (hx | hx | ⟨b', k, hb, hx⟩)
    · exact .inl hx
    · exact .inr (.inl hx)
    · refine .inr (.inr ⟨b', k, ?_, hx⟩)
      by_cases hbb : b' = b
      · subst hbb
        simp [bulk] at hb
      · simpa [bulk, AList.lookup_erase_ne hbb] using hb
  exact ⟨⟨fun x hx => h.alive x (owns x hx), h.pipelines⟩, owns⟩

end State

/-! ### Ending an object -/

section Release

variable {W : World}

private theorem vReset_owned (h : s.Owned) (ha : ∀ o, s.object a = some o → o.role.isPipeline = false) :
    Leaves (vReset a) s.Loosens s := by
  simp only [vReset, wp_bind, wp_deref, wp_setCurrent, wp_putObject, implies_true, and_true]
  refine wp_derefConnection a fun _ _ _ o ho => ?_
  have hl := h.current o.role.previous
  refine hl.trans (hl.1.change _ ho (fun p => id) fun hp => ?_)
  rw [ha o ho] at hp
  cases hp

private theorem endWith_owned {x : Prog DB Unit} (hx : KeepsHeap x) (h : s.Owned)
    (ha : ∀ o, s.object a = some o → o.role.isPipeline = false) :
    Leaves (endWith a x) s.Loosens s := by
  rw [leaves_endWith]
  refine (KeepsHeap.bind (.checkCurrentTransaction a) fun _ => hx).leaves fun c => ?_
  exact (vReset_owned (h.conn c).1 ha).mono fun _ => (h.conn c).trans

private theorem rollbackInDtor_owned (h : s.Owned) (ha : ∀ o, s.object a = some o → o.role.isPipeline = false) :
    Leaves (rollbackInDtor W a) s.Loosens s := by
  simp only [rollbackInDtor, wp_bind, wp_catchAll]
  rw [← wp_bind]
  refine (KeepsHeap.bind (.checkCurrentTransaction a) fun _ => .vRollback W a).wp_of (fun _ c => ?_) fun e c => ?_
  · exact (vReset_owned (h.conn c).1 ha).mono fun _ => (h.conn c).trans
  · refine wp_derefConnection a fun _ _ _ => ?_
    exact (vReset_owned (h.conn c).1 ha).mono fun _ => (h.conn c).trans

private theorem deregister_owned (h : s.Owned) :
    Leaves (deregister a) s.Loosens s := by
  simp only [deregister, wp_bind, wp_deref, wp_ite, wp_setCurrent, wp_pure, implies_true, and_true]
  exact fun o _ => ⟨fun _ => h.current _, fun _ => h.loosens⟩

/-- What is asked of the release of a reference, for the destructors that call it. -/
abbrev ReleaseOwned (release : Addr → Prog DB Unit) : Prop :=
  ∀ (a : Addr) (s : State DB), s.Owned → Leaves (release a) s.Loosens s

private theorem finishWith_owned {release : Addr → Prog DB Unit} (hr : ReleaseOwned release) (h : s.Owned) :
    Leaves (finishWith release a) s.Loosens s := by
  simp only [finishWith, wp_bind, wp_deref, implies_true, and_true]
  intro o ho
  split
  · rename_i p hp
    simp only [wp_bind, wp_setCurrent, wp_putObject, wp_andFinally]
    have hl := h.current (some p)
    have hl' := hl.trans (hl.1.change { o with role := .pipeline none } ho
      (fun q hq => by cases hq) fun _ => h.pipelines a o ho (by rw [hp]; rfl))
    refine (KeepsHeap.onConnection _).leaves fun c => ?_
    have hc := hl'.trans (hl'.1.conn c)
    exact (hr p _ hc.1).mono fun _ => hc.trans
  · exact h.loosens

private theorem attemptRollbackInDtor_owned (h : s.Owned) (ha : ∀ o, s.object a = some o → o.role.isPipeline = false) :
    Leaves (attemptRollbackInDtor W a) s.Loosens s := by
  simp only [attemptRollbackInDtor, wp_bind, wp_deref, wp_ite, wp_pure, implies_true, and_true]
  refine fun o _ => ⟨fun _ => ?_, fun _ => h.loosens⟩
  refine (KeepsHeap.onConnection _).wp_of (fun v c => ⟨fun _ => ?_, fun _ => h.conn c⟩) (fun _ c => h.conn c)
  exact (rollbackInDtor_owned (h.conn c).1 ha).mono fun _ => (h.conn c).trans

theorem destructor_owned {release : Addr → Prog DB Unit} (hr : ReleaseOwned release) (h : s.Owned) :
    Leaves (destructor W release a) s.Loosens s := by
  simp only [destructor, wp_bind, wp_deref, implies_true, and_true]
  intro o ho
  have ended (hp : o.role.isPipeline = false) :
      Leaves (do attemptRollbackInDtor W a; deregister a) s.Loosens s := by
    rw [leaves_bind]
    refine wp_mono (attemptRollbackInDtor_owned h fun x hx => ?_) (fun _ s' hl => ?_) (fun _ _ => id)
    · exact Option.some.inj (ho.symm.trans hx) ▸ hp
    · exact (deregister_owned hl.1).mono fun _ => hl.trans
  cases hrole : o.role with
  | autocommitTransaction => exact deregister_owned h
  | topLevelTransaction => exact ended (by rw [hrole]; rfl)
  | topLevelSubtransaction p => exact ended (by rw [hrole]; rfl)
  | nestedSubtransaction p => exact ended (by rw [hrole]; rfl)
  | transactionGuard p => exact deregister_owned h
  | pipeline p =>
    simp only [wp_catchAll, wp_pure]
    exact finishWith_owned hr h

theorem releaseN_owned (n : Nat) : ReleaseOwned (releaseN W n : Addr → Prog DB Unit) := by
  induction n with
  | zero => exact fun a s h => h.loosens
  | succ n ih =>
    intro a s h
    simp only [releaseN, wp_bind, wp_get, wp_ite, wp_deref, wp_eraseObject, wp_pure, implies_true, and_true]
    refine ⟨fun hu => ?_, fun _ => h.loosens⟩
    have hu := (s.unowned_eq_true a).1 hu
    refine wp_mono (destructor_owned ih h) (fun _ s' hs' o _ => ?_) (fun _ _ => id)
    have hl := hs'.trans (hs'.1.erase fun ha => hu (hs'.2 a ha))
    cases o.role.previous with
    | none => exact hl
    | some p => exact (ih p _ hl.1).mono fun _ => hl.trans

theorem release_owned : ReleaseOwned (release W : Addr → Prog DB Unit) := by
  intro a s h
  simp only [release, wp_bind, wp_get]
  exact releaseN_owned _ a s h

private theorem dropHandle_owned (h : s.Owned) (a : Addr) :
    Leaves (dropHandle W a) s.Loosens s := by
  simp only [dropHandle, wp_bind, wp_modify]
  have hl := h.drop a
  exact (release_owned a _ hl.1).mono fun _ => hl.trans

private theorem resetTransaction_owned (h : s.Owned) (b : Nat) :
    Leaves (resetTransaction W b) s.Loosens s := by
  simp only [resetTransaction, wp_bind, wp_derefBulk, wp_putBulk, implies_true, and_true]
  intro k hk
  have hl := h.changeBulk { k with transaction := none } hk fun p hp => hp.imp_right fun hp => by cases hp
  cases k.transaction with
  | none => exact hl
  | some g => exact (release_owned g _ hl.1).mono fun _ => hl.trans

private theorem resetPrevious_owned (h : s.Owned) (b : Nat) :
    Leaves (resetPrevious W b) s.Loosens s := by
  simp only [resetPrevious, wp_bind, wp_derefBulk, wp_putBulk, implies_true, and_true]
  intro k hk
  have hl := h.changeBulk { k with previous := none } hk fun p hp => hp.imp_left fun hp => by cases hp
  cases k.previous with
  | none => exact hl
  | some o => exact (release_owned o _ hl.1).mono fun _ => hl.trans

private theorem destroyMembers_owned (h : s.Owned) (b : Nat) :
    Leaves (destroyMembers W b) s.Loosens s := by
  simp only [destroyMembers, wp_bind, wp_modify]
  refine wp_mono (resetTransaction_owned h b) (fun _ s₁ h₁ => ?_) (fun _ _ => id)
  refine wp_mono (resetPrevious_owned h₁.1 b) (fun _ s₂ h₂ => ?_) (fun _ _ => h₁.trans)
  exact (h₁.trans h₂).trans (h₂.1.eraseBulk b)

end Release

/-! ### Creating an object -/

section Create

variable {W : World}

/-- An object is placed at a free address, which nobody owns yet. -/
private theorem put_fresh (h : s.Owned) (hp : ∀ p, o.role.previous = some p → (s.object p).isSome)
    (hc : o.role.isPipeline = true → o.connected = true) (ha : s.free a) :
    let s' : State DB := { s with objects := s.objects.insert a o }
    s'.Owned ∧ s'.object a = some o ∧ ¬ s'.Owns a := by
  refine ⟨h.put hp hc, by simp [State.object_insert], ?_⟩
  have hn : ¬ s.Owns a := fun hs => by
    have := h.alive a hs
    rw [State.free] at ha
    simp [ha] at this
  rintro (hx | ⟨y, z, hy, hz⟩ | hx)
  · exact hn (.inl hx)
  · rw [State.object_insert] at hy
    split at hy
    · obtain rfl := Option.some.inj hy
      have := hp a hz
      rw [State.free] at ha
      simp [ha] at this
    · exact hn (.inr (.inl ⟨y, z, hy, hz⟩))
  · exact hn (.inr (.inr hx))

private theorem newTransactionBase_owned {r : Role} (hr : r.previous = none) (hc : r.isPipeline = false) (h : s.Owned)
    (ha : s.free a) :
    wp True (newTransactionBase a r)
      (fun _ s' => s'.Owned ∧ s'.object a = some ⟨r, true⟩ ∧ ¬ s'.Owns a ∧ ∀ x, x ≠ a → s'.object x = s.object x)
      (fun _ => State.Owned) s := by
  simp only [newTransactionBase, wp_bind, wp_get, wp_ite, wp_throw, wp_putObject, wp_setCurrent]
  refine ⟨fun _ => h, fun _ => ?_⟩
  obtain ⟨ho, hoa, hown⟩ := put_fresh (o := ⟨r, true⟩) h (by simp [hr]) (by simp [hc]) ha
  exact ⟨(ho.current (some a)).1, hoa, hown, fun x hx => by
    show ({ s with objects := s.objects.insert a ⟨r, true⟩ } : State DB).object x = _
    rw [State.object_insert, if_neg hx]⟩

theorem direct_owned (h : s.Owned) (ha : s.free a) :
    wp True (direct a)
      (fun _ s' => s'.Owned ∧ ∀ x, x ≠ a → s'.object x = s.object x) (fun _ => State.Owned) s := by
  simp only [direct, wp_bind, wp_hold]
  refine wp_mono (newTransactionBase_owned rfl rfl h ha) (fun _ s' hs' => ?_) (fun _ _ => id)
  obtain ⟨ho, hoa, _, hframe⟩ := hs'
  exact ⟨ho.hold hoa, hframe⟩

private theorem transaction_owned (il : IsolationLevel) (am : AccessMode) (h : s.Owned) (ha : s.free a) :
    Leaves (transaction W a il am) State.Owned s := by
  simp only [transaction, wp_bind, wp_catchAll, wp_hold, wp_eraseObject, wp_throw]
  refine wp_mono (newTransactionBase_owned rfl rfl h ha) (fun _ s' hs' => ?_) (fun _ _ => id)
  obtain ⟨ho, hoa, hown, _⟩ := hs'
  refine (KeepsHeap.execute W a _).wp_of (fun _ c => ?_) (fun e c => ?_)
  · exact (ho.conn c).1.hold hoa
  · have hl := ho.conn c
    refine wp_mono (deregister_owned hl.1) (fun _ s'' hs'' => ?_) (fun _ _ hs'' => hs''.1)
    exact (hs''.1.erase fun hx => hown (hl.2 a (hs''.2 a hx))).1

private theorem newSubtransactionBase_owned {r : Addr → Role} (hr : ∀ p, (r p).previous = some p)
    (hc : ∀ p, (r p).isPipeline = false) (h : s.Owned) (ha : s.free a) :
    wp True (newSubtransactionBase a r)
      (fun _ s' => s'.Owned ∧ (∃ p, s'.object a = some ⟨r p, true⟩) ∧ ¬ s'.Owns a ∧
        ∀ x, x ≠ a → s'.object x = s.object x)
      (fun _ => State.Owned) s := by
  simp only [newSubtransactionBase, wp_bind, wp_get]
  cases s.current with
  | none => exact trivial
  | some p =>
    simp only [wp_derefPointer_some, wp_putObject, wp_setCurrent, implies_true, and_true]
    intro hp
    obtain ⟨ho, hoa, hown⟩ := put_fresh (o := ⟨r p, true⟩) h (by simp [hr, hp]) (by simp [hc]) ha
    exact ⟨(ho.current (some a)).1, ⟨p, hoa⟩, hown, fun x hx => by
      show ({ s with objects := s.objects.insert a ⟨r p, true⟩ } : State DB).object x = _
      rw [State.object_insert, if_neg hx]⟩

private theorem unwindSubtransaction_owned (h : s.Owned) (ha : ¬ s.Owns a) :
    Leaves (unwindSubtransaction W a) State.Owned s := by
  simp only [unwindSubtransaction, wp_bind, wp_deref, wp_eraseObject, implies_true, and_true]
  refine wp_mono (deregister_owned h) (fun _ s' hs' o _ => ?_) (fun _ _ hs' => hs'.1)
  have hl := hs'.trans (hs'.1.erase fun hx => ha (hs'.2 a hx))
  cases o.role.previous with
  | none => exact hl.1
  | some p => exact (release_owned p _ hl.1).mono fun _ hs' => hs'.1

private theorem newSubtransaction_owned {r : Addr → Role} (hr : ∀ p, (r p).previous = some p)
    (hc : ∀ p, (r p).isPipeline = false) (k : Control) (h : s.Owned) (ha : s.free a) :
    Leaves (newSubtransaction W a r k) State.Owned s := by
  simp only [newSubtransaction, wp_bind, wp_catchAll, wp_hold, wp_throw]
  refine wp_mono (newSubtransactionBase_owned hr hc h ha) (fun _ s' hs' => ?_) (fun _ _ => id)
  obtain ⟨ho, ⟨p, hoa⟩, hown, _⟩ := hs'
  refine (KeepsHeap.execute W a _).wp_of (fun _ c => ?_) (fun e c => ?_)
  · exact (ho.conn c).1.hold hoa
  · exact unwindSubtransaction_owned (ho.conn c).1 fun hx => hown ((ho.conn c).2 a hx)

private theorem subtransaction_owned (o : Addr) (h : s.Owned) (ha : s.free a) :
    Leaves (subtransaction W o a) State.Owned s := by
  simp only [subtransaction, wp_bind, wp_checkCurrentTransaction, wp_deref, wp_ite, implies_true, and_true]
  exact fun _ _ => ⟨fun _ x _ =>
    ⟨fun _ => newSubtransaction_owned (fun _ => rfl) (fun _ => rfl) _ h ha,
      fun _ => newSubtransaction_owned (fun _ => rfl) (fun _ => rfl) _ h ha⟩, fun _ => h⟩

private theorem pipeline_owned (o : Addr) (h : s.Owned) (ha : s.free a) :
    Leaves (pipeline o a) State.Owned s := by
  simp only [pipeline, wp_bind, wp_checkCurrentTransaction, wp_get, implies_true, and_true]
  refine fun _ _ => ⟨fun hc => ?_, fun _ => h⟩
  simp only [hc.2, wp_derefPointer_some, implies_true, and_true]
  intro ho
  refine (KeepsHeap.onConnection _).wp_of (fun _ c => ?_) (fun _ c => (h.conn c).1)
  simp only [wp_putObject, wp_setCurrent, wp_hold]
  have hl := h.conn c
  obtain ⟨hput, hoa, _⟩ := put_fresh (o := ⟨.pipeline (some o), true⟩) hl.1
    (fun p hp => Option.some.inj hp ▸ ho) (fun _ => rfl) ha
  exact (hput.current (some a)).1.hold hoa

private theorem connectionPipeline_owned {d : Addr} (h : s.Owned) (hd : s.free d) (ha : s.free a) (hda : d ≠ a) :
    Leaves (connectionPipeline W d a) State.Owned s := by
  simp only [connectionPipeline, wp_bind, wp_andFinally]
  refine wp_mono (direct_owned h hd) (fun _ s' hs' => ?_) (fun _ _ => id)
  have ha' : s'.free a := by
    rw [State.free, hs'.2 a hda.symm]
    exact ha
  refine (pipeline_owned d hs'.1 ha').mono fun s'' h'' => ?_
  exact (dropHandle_owned h'' d).mono fun _ hl => hl.1

private theorem connectionExecute_owned {d : Addr} (cmd : Command DB) (h : s.Owned) (hd : s.free d) :
    Leaves (connectionExecute W d cmd) State.Owned s := by
  simp only [connectionExecute, wp_bind, wp_andFinally]
  refine wp_mono (direct_owned h hd) (fun _ s' hs' => ?_) (fun _ _ => id)
  refine (KeepsHeap.execute W d cmd).leaves fun c => ?_
  exact (dropHandle_owned (hs'.1.conn c).1 d).mono fun _ hl => hl.1

private theorem deallocate_owned {d : Addr} (name : String) (h : s.Owned) (hd : s.free d) :
    Leaves (deallocate W d name) State.Owned s := by
  simp only [deallocate, wp_bind, wp_get, wp_ite, wp_throw, wp_modify]
  refine (KeepsHeap.onConnection _).wp_of (fun _ c => ⟨fun _ => ?_, fun _ => (h.conn c).1⟩) (fun _ c => (h.conn c).1)
  exact wp_mono (connectionExecute_owned _ (h.conn c).1 hd) (fun _ s' hs' => (hs'.conn _).1) (fun _ _ => id)

end Create

/-! ### Table readers and table writers -/

section BulkTransfer

variable {W : World} {b : Nat}

private theorem newBulk_owned {o g : Addr} (reader : Bool) (u : Statement DB) (h : s.Owned)
    (ho : (s.object o).isSome) (hg : s.free g) :
    Leaves (newBulk W reader o g b u) State.Owned s := by
  simp only [newBulk, newTransactionGuard, wp_bind, wp_catchAll, wp_putBulk, wp_throw]
  refine wp_derefConnection o fun _ _ _ => ?_
  refine wp_mono (newSubtransactionBase_owned (fun _ => rfl) (fun _ => rfl) h hg) (fun _ s' hs' => ?_) (fun _ _ => id)
  obtain ⟨h', ⟨p, hga⟩, _, hframe⟩ := hs'
  have ho' : (s'.object o).isSome := by
    by_cases he : o = g
    · simp [he, hga]
    · simpa [hframe o he] using ho
  have hput := h'.putBulk (b := b) (k := ⟨reader, some o, some g, 0, none⟩) (by
    rintro x (hx | hx)
    · exact Option.some.inj hx ▸ ho'
    · exact Option.some.inj hx ▸ Option.isSome_of_mem hga)
  have fails (s₁ : State DB) (hs₁ : s₁.Owned) :
      Leaves (destroyMembers W b) State.Owned s₁ :=
    (destroyMembers_owned hs₁ b).mono fun _ hl => hl.1
  refine (KeepsHeap.send W g _).wp_of (fun _ c => ?_) (fun e c => fails _ (hput.conn c).1)
  rw [wp_ite]
  refine ⟨fun _ => ?_, fun _ => ?_⟩
  · refine wp_readerCheckResult W b (fun c k n hk => ?_) (fun c => (hput.conn c).1) (fun e c => fails _ (hput.conn c).1)
    exact ((hput.conn c).1.changeBulk { k with columns := n } hk fun _ => id).1
  · exact (KeepsHeap.writerCheckResult W b).wp_of (fun _ c => (hput.conn c).1) (fun e c => fails _ (hput.conn c).1)

private theorem resetBoth_owned (h : s.Owned) :
    wp True (resetTransaction W b) (fun _ => Leaves (resetPrevious W b) State.Owned) (fun _ => State.Owned) s := by
  refine wp_mono (resetTransaction_owned h b) (fun _ s₁ h₁ => ?_) (fun _ _ h₁ => h₁.1)
  exact (resetPrevious_owned h₁.1 b).mono fun _ h₂ => h₂.1

private theorem getRawData_owned (h : s.Owned) :
    Leaves (getRawData W b) State.Owned s := by
  simp only [getRawData, wp_bind, wp_derefBulk, wp_putBulk, implies_true, and_true]
  refine (KeepsHeap.guardOf b).wp_of (fun g c => ?_) (fun _ c => (h.conn c).1)
  refine (KeepsHeap.onConnection _).wp_of (fun data c => ?_) (fun _ c => (h.conn c).1)
  intro k hk
  have hk' := ((h.conn c).1.changeBulk { k with buffer := data } hk fun _ => id).1
  cases data with
  | some row => exact hk'
  | none =>
    simp only [wp_bind]
    refine (KeepsHeap.onConnection _).wp_of (fun r c => ?_) (fun _ c => (hk'.conn c).1)
    cases r with
    | none => exact (KeepsHeap.onConnection _).leaves fun c => (hk'.conn c).1
    | some r =>
      simp only [wp_bind, wp_pure]
      exact (KeepsHeap.onConnection _).wp_of (fun _ c => resetBoth_owned (hk'.conn c).1) (fun _ c => (hk'.conn c).1)

private theorem writerCommit_owned (h : s.Owned) :
    Leaves (writerCommit W b) State.Owned s := by
  simp only [writerCommit, wp_bind, wp_pure]
  refine (KeepsHeap.guardOf b).wp_of (fun g c => ?_) (fun _ c => (h.conn c).1)
  refine (KeepsHeap.onConnection _).wp_of (fun _ c => ?_) (fun _ c => (h.conn c).1)
  refine (KeepsHeap.getResult W g).wp_of (fun r c => ?_) (fun _ c => (h.conn c).1)
  exact (KeepsHeap.rowsAffected r).wp_of (fun n c => resetBoth_owned (h.conn c).1) (fun _ c => (h.conn c).1)

private theorem destroyBulk_owned (h : s.Owned) :
    Leaves (destroyBulk W b) State.Owned s := by
  simp only [destroyBulk, wp_bind, wp_derefBulk, implies_true, and_true]
  intro k _
  have members (c : Connection DB) :
      Leaves (destroyMembers W b) State.Owned { s with conn := c } :=
    (destroyMembers_owned (h.conn c).1 b).mono fun _ hl => hl.1
  split
  · simp only [wp_catchAll, wp_bind, wp_pure]
    exact (KeepsHeap.getResult W _).leaves fun c => members c
  · exact members s.conn

end BulkTransfer

/-! ### Every run -/

theorem owned_step {W : World} {c : Call DB} (h : s.Owned) (hs : Step W s c s') : s'.Owned := by
  obtain ⟨hl, hs⟩ := hs
  suffices h' : Leaves (perform W c) State.Owned s from
    Outcome.Sat.of_stateLeft h' hs
  have keeps {x : Prog DB Unit} (hx : KeepsHeap x) : Leaves x State.Owned s :=
    hx.leaves fun c => (h.conn c).1
  have loosens {x : Prog DB Unit} (hx : Leaves x s.Loosens s) :
      Leaves x State.Owned s := hx.mono fun _ hl => hl.1
  cases c with
  | direct a => exact wp_mono (direct_owned h hl) (fun _ _ h' => h'.1) (fun _ _ => id)
  | transaction a il am => exact transaction_owned il am h hl
  | connectionPipeline d a => exact connectionPipeline_owned h hl.1 hl.2.1 hl.2.2
  | connectionExecute d u =>
    show wp True (ignore _) _ _ s
    simp only [ignore, wp_bind, wp_pure]
    exact connectionExecute_owned _ h hl
  | prepare name valid => exact keeps (.onConnection _)
  | deallocate d name => exact deallocate_owned name h hl
  | enterPipelineMode => exact keeps (.onConnection _)
  | exitPipelineMode => exact keeps (.onConnection _)
  | connectionSync => exact keeps (.onConnection _)
  | subtransaction o a => exact subtransaction_owned o h hl.2
  | pipeline o a => exact pipeline_owned o h hl.2
  | send o u => exact keeps (.send W o _)
  | setSingleRowMode o => exact keeps (.setSingleRowMode o)
  | setChunkMode o rows => exact keeps (.setChunkMode o rows)
  | getResult o => exact keeps (.bind (.getResult W o) fun _ => .pure ())
  | consumePipelineSync o => exact keeps (.consumePipelineSync W o)
  | execute o u => exact keeps (.bind (.execute W o _) fun _ => .pure ())
  | commit o => exact loosens (endWith_owned (.vCommit W o) h hl.2)
  | rollback o => exact loosens (endWith_owned (.vRollback W o) h hl.2)
  | sync o => exact keeps (.bind (.derefConnection o) fun _ => .onConnection _)
  | consumeSync o => exact keeps (.consumeSync W o)
  | finish o => exact loosens (finishWith_owned release_owned h)
  | copyHandle o =>
    obtain ⟨x, hx⟩ := Option.isSome_iff_exists.1 (h.alive o (.inl hl))
    exact h.hold hx
  | dropHandle o => exact loosens (dropHandle_owned h o)
  | tableReader o g b u => exact newBulk_owned true u h (h.alive o (.inl hl.1.1)) hl.2.1
  | tableWriter o g b u => exact newBulk_owned false u h (h.alive o (.inl hl.1.1)) hl.2.1
  | getRow b =>
    show wp True (ignore _) _ _ s
    simp only [ignore, wp_bind, wp_pure]
    exact getRawData_owned h
  | insertRaw b data => exact keeps (.bind (.guardOf b) fun _ => .onConnection _)
  | writerCommit b =>
    show wp True (ignore _) _ _ s
    simp only [ignore, wp_bind, wp_pure]
    exact writerCommit_owned h
  | destroyBulk b => exact destroyBulk_owned h

/-- In every state that a program reaches, whatever it does, the objects that somebody owns are alive. -/
theorem Reaches.owned {W : World} {ok : State DB → Call DB → Prop} (h : Reaches W ok s) : s.Owned :=
  h.invariant State.Owned.init fun _ _ _ hi _ hs => owned_step hi hs

end TaoPQ
