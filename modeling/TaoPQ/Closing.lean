import TaoPQ.Descriptors

/-!
# Large objects close what they opened

What is true between the functions of large objects (`Tidy`): the transactions that they refer to are alive, with a
shared pointer for each reference, and the descriptors of every number are accounted for.  First the changes of large
objects and descriptors, then from these the functions, for which the transaction that they use must not have ended:
`close` in particular either lets go of the descriptor, or has called `lo_close` in vain (`close_spec`).
-/

namespace TaoPQ

open Exec
open Function (update update_self update_of_ne)

namespace LargeObjects

variable {DB : Type} {W : World} {s : LargeObjects DB} {k : LargeObject} {x y fd n : Nat} {t u : Addr} {r : Reply}
  {ub : Prop}

/-! ### The table of large objects -/

/-- The large object refers to the number, and to the transaction. -/
def refers (s : LargeObjects DB) (fd x : Nat) (t : Addr) : Prop := s.object x = some ⟨some t, fd⟩

/-- A large object is placed. -/
def withObject (s : LargeObjects DB) (x : Nat) (k : LargeObject) : LargeObjects DB :=
  { s with objects := s.objects.insert x k }

/-- A large object is removed. -/
def withoutObject (s : LargeObjects DB) (x : Nat) : LargeObjects DB := { s with objects := s.objects.erase x }

theorem object_withObject (s : LargeObjects DB) (x : Nat) (k : LargeObject) (y : Nat) :
    (s.withObject x k).object y = if y = x then some k else s.object y := by
  by_cases h : y = x
  · subst h
    simp [object, withObject]
  · simp [object, withObject, h, AList.lookup_insert_ne]

theorem object_withoutObject (s : LargeObjects DB) (x y : Nat) :
    (s.withoutObject x).object y = if y = x then none else s.object y := by
  by_cases h : y = x
  · subst h
    simp [object, withoutObject]
  · simp [object, withoutObject, h, AList.lookup_erase_ne]

theorem transactionOf_eq (hk : s.object x = some k) : s.transactionOf x = k.transaction := by
  rw [transactionOf, hk, Option.bind_some]

private theorem countP_kerase {β : Nat → Type} (p : Sigma β → Bool) (x : Nat) (l : List (Sigma β)) :
    l.countP p = (l.kerase x).countP p + if (l.dlookup x).any (fun b => p ⟨x, b⟩) then 1 else 0 := by
  induction l with
  | nil => rfl
  | cons e l ih =>
    by_cases h : x = e.1
    · subst h
      rw [List.kerase_cons_eq rfl, List.dlookup_cons_eq, List.countP_cons]
      rfl
    · rw [List.kerase_cons_ne h, List.dlookup_cons_ne _ _ h, List.countP_cons, List.countP_cons, ih]
      omega

theorem references_withoutObject (s : LargeObjects DB) (x : Nat) (t : Addr) :
    s.references t = (s.withoutObject x).references t + if s.transactionOf x = some t then 1 else 0 := by
  have hcount := countP_kerase (fun e : Sigma fun _ : Nat => LargeObject => decide (e.2.transaction = some t)) x
    s.objects.entries
  have hany : (s.objects.entries.dlookup x).any (fun k => decide (k.transaction = some t)) = true ↔
      s.transactionOf x = some t := by
    simp [transactionOf, object, AList.lookup, Option.any_eq_true, Option.bind_eq_some_iff]
  simp only [hany] at hcount
  exact hcount

theorem references_withObject (s : LargeObjects DB) (x : Nat) (k : LargeObject) (t : Addr) :
    (s.withObject x k).references t =
      (s.withoutObject x).references t + if k.transaction = some t then 1 else 0 := by
  simp only [references, withObject, withoutObject, AList.entries_insert, List.countP_cons, decide_eq_true_eq]
  rfl

/-- A large object that does not refer to a transaction counts for nothing. -/
theorem references_withoutObject_of_none (hx : s.transactionOf x = none) (t : Addr) :
    (s.withoutObject x).references t = s.references t := by
  have hcount := s.references_withoutObject x t
  rw [hx, if_neg (fun h => by cases h)] at hcount
  exact hcount.symm

/-- The shared pointer of a large object is empty. -/
def letGo (s : LargeObjects DB) (x : Nat) (k : LargeObject) : LargeObjects DB :=
  s.withObject x { k with transaction := none }

theorem refers_letGo (s : LargeObjects DB) (x : Nat) (k : LargeObject) (fd y : Nat) (t : Addr) :
    (s.letGo x k).refers fd y t ↔ s.refers fd y t ∧ y ≠ x := by
  unfold refers letGo
  rw [object_withObject]
  by_cases h : y = x
  · subst h
    simp
  · simp [h]

theorem transactionOf_letGo (s : LargeObjects DB) (x : Nat) (k : LargeObject) :
    (s.letGo x k).transactionOf x = none := by
  rw [transactionOf, letGo, object_withObject, if_pos rfl, Option.bind_some]

theorem references_letGo (hk : s.object x = some k) (t : Addr) :
    s.references t = (s.letGo x k).references t + if k.transaction = some t then 1 else 0 := by
  have hnone : ¬ ({ k with transaction := none } : LargeObject).transaction = some t := Option.some_ne_none t ∘ Eq.symm
  rw [s.references_withoutObject x t, transactionOf_eq hk, letGo, references_withObject, if_neg hnone, Nat.add_zero]

/-- `lo_close` was called for the latest descriptor of a number. -/
def withClose (s : LargeObjects DB) (fd : Nat) (ok : Bool) : LargeObjects DB :=
  { s with descriptors := update s.descriptors fd ((s.descriptors fd).modifyHead (Descriptor.close ok)) }

theorem descriptors_withClose (s : LargeObjects DB) (fd : Nat) (ok : Bool) :
    (s.withClose fd ok).descriptors fd = (s.descriptors fd).modifyHead (Descriptor.close ok) := update_self _ _ _

/-- One more shared pointer to a transaction. -/
def withHandle (s : LargeObjects DB) (t : Addr) : LargeObjects DB :=
  { s with state := { s.state with held := t :: s.state.held } }

/-- A descriptor was opened. -/
def withOpen (s : LargeObjects DB) (t : Addr) (fd : Nat) : LargeObjects DB :=
  { s with descriptors := update s.descriptors fd (⟨t, s.state.currentBlock, true, []⟩ :: s.descriptors fd) }

/-- The server closed the latest descriptor of a number. -/
def withExpired (s : LargeObjects DB) (fd : Nat) : LargeObjects DB := { s with
  descriptors := update s.descriptors fd ((s.descriptors fd).modifyHead fun d => { d with isOpen := false }) }

/-! ### What is true of large objects -/

/-- No large object has lost its transaction, and the descriptors of all numbers are accounted for. -/
structure Tidy (s : LargeObjects DB) : Prop where
  owned : s.state.Owned
  held : ∀ t, s.references t ≤ s.state.held.count t
  accounted : ∀ fd, Accounted (fun t => s.state.live t = true) (s.refers fd) (s.descriptors fd)

namespace Tidy

theorem init (db : DB) : (init db).Tidy where
  owned := State.Owned.init db
  held t := Nat.zero_le _
  accounted fd := .nil fun x t h => by cases h

theorem conn (h : s.Tidy) (c : Connection DB) :
    ({ s with state := { s.state with conn := c } } : LargeObjects DB).Tidy :=
  ⟨(h.owned.conn c).1, h.held, h.accounted⟩

/-- The transaction of a large object is alive. -/
theorem alive (h : s.Tidy) (ht : 0 < s.references t) : (s.state.object t).isSome :=
  h.owned.alive t (.inl (List.count_pos_iff.mp (Nat.lt_of_lt_of_le ht (h.held t))))

theorem references_pos (hx : s.refers fd x t) : 0 < s.references t := by
  have hcount := references_letGo hx t
  rw [if_pos rfl] at hcount
  omega

/-- Something happens that keeps what large objects refer to. -/
theorem of_keeps (h : s.Tidy) {st : State DB} (howned : st.Owned)
    (hkeeps : ∀ t n, n < s.references t → n < st.held.count t ∧ (s.state.over t → st.over t)) :
    ({ s with state := st } : LargeObjects DB).Tidy := by
  refine ⟨howned, fun t => ?_, fun fd => (h.accounted fd).mono fun x t hx hlive => ?_⟩
  · show s.references t ≤ st.held.count t
    by_contra hlt
    have hn := (hkeeps t (st.held.count t) (Nat.lt_of_not_le hlt)).1
    exact absurd hn (Nat.lt_irrefl _)
  · have hpos := references_pos hx
    obtain ⟨o, ho⟩ := Option.isSome_iff_exists.mp (h.alive hpos)
    by_contra hover
    obtain ⟨o', ho', hc⟩ := (hkeeps t 0 hpos).2 ⟨o, ho, by simpa [State.live, ho] using hover⟩
    simp [State.live, ho', hc] at hlive

/-- What happens to large objects and descriptors concerns one number only. -/
theorem of_change (h : s.Tidy) (fd : Nat) {s' : LargeObjects DB} (howned : s'.state.Owned)
    (hheld : ∀ t, s'.references t ≤ s'.state.held.count t) (hlive : ∀ t, s'.state.live t = s.state.live t)
    (hrefers : ∀ n, n ≠ fd → ∀ y u, s'.refers n y u ↔ s.refers n y u)
    (hdescriptors : ∀ n, n ≠ fd → s'.descriptors n = s.descriptors n)
    (hfd : Accounted (fun t => s.state.live t = true) (s'.refers fd) (s'.descriptors fd)) : s'.Tidy := by
  refine ⟨howned, hheld, fun n => ?_⟩
  simp only [hlive]
  by_cases hn : n = fd
  · exact hn ▸ hfd
  · rw [hdescriptors n hn]
    exact (h.accounted n).congr (hrefers n hn)

/-- A large object lets go of a descriptor for which `lo_close` was called. -/
theorem letGo (h : s.Tidy) (hk : s.object x = some k)
    (hcalled : ∀ t, k.transaction = some t → ∀ d ∈ s.descriptors k.fd, d.transaction = t → d.closes ≠ []) :
    (s.letGo x k).Tidy := by
  refine ⟨h.owned, fun t => ?_, fun fd => ?_⟩
  · have hcount := references_letGo hk t
    have hheld := h.held t
    show (s.letGo x k).references t ≤ s.state.held.count t
    omega
  · refine ((h.accounted fd).letGo (x := x) fun t hx => ?_).congr fun y t => refers_letGo s x k fd y t
    have hkt : k = ⟨some t, fd⟩ := Option.some.inj (hk.symm.trans hx)
    subst hkt
    exact hcalled t rfl

/-- What `lo_close` leaves of the number of a large object. -/
private theorem closed_at (h : s.Tidy) (hx : s.refers fd x t) (ht : s.state.live t = true) (ok : Bool) :
    Accounted (fun t => s.state.live t = true) (fun y u => s.refers fd y u ∧ (ok = true → y ≠ x))
      ((s.withClose fd ok).descriptors fd) := by
  have hfun (u : Addr) : s.refers fd x u ↔ u = t := by
    unfold refers at hx ⊢
    rw [hx]
    simp [eq_comm]
  rw [descriptors_withClose]
  exact (h.accounted fd).closed hfun ht ok

/-- `lo_close` succeeds for a large object, which lets go. -/
theorem closed (h : s.Tidy) (hx : s.refers fd x t) (ht : s.state.live t = true) :
    ((s.withClose fd true).letGo x ⟨some t, fd⟩).Tidy := by
  refine h.of_change fd h.owned ?_ (fun _ => rfl) ?_ (fun n hn => update_of_ne hn _ _) ?_
  · intro u
    have hcount := references_letGo (s := s.withClose fd true) hx u
    have hheld : (s.withClose fd true).references u ≤ s.state.held.count u := h.held u
    show _ ≤ s.state.held.count u
    omega
  · intro n hn y u
    refine (refers_letGo _ _ _ _ _ _).trans (and_iff_left_of_imp fun hy => ?_)
    rintro rfl
    -- a large object has one number
    exact hn (congrArg LargeObject.fd (Option.some.inj (hy.symm.trans hx)))
  · refine (h.closed_at hx ht true).congr fun y u => ?_
    exact (refers_letGo _ _ _ _ _ _).trans (and_congr Iff.rfl (true_imp_iff (α := y ≠ x) |>.symm.trans (by simp)))

/-- `lo_close` fails for a large object. -/
theorem refused (h : s.Tidy) (hx : s.refers fd x t) (ht : s.state.live t = true) :
    (s.withClose fd false).Tidy := by
  refine h.of_change fd h.owned h.held (fun _ => rfl) (fun _ _ _ _ => Iff.rfl)
    (fun n hn => update_of_ne hn _ _) ?_
  exact (h.closed_at hx ht false).congr fun y u => (and_iff_left (fun hok => by cases hok)).symm

/-- A failed call of `lo_close` is enough for a large object to let go. -/
theorem refused_called (h : s.Tidy) (ht : s.state.live t = true) {d : Descriptor}
    (hd : d ∈ (s.withClose fd false).descriptors fd) (hdt : d.transaction = t) : d.closes ≠ [] := by
  rw [descriptors_withClose] at hd
  cases hds : s.descriptors fd with
  | nil =>
    rw [hds] at hd
    cases hd
  | cons e ds =>
    rw [hds] at hd
    rcases List.mem_cons.mp hd with rfl | hd
    · exact List.cons_ne_nil _ _
    · have haccounted := h.accounted fd
      rw [hds] at haccounted
      exact haccounted.called d hd (hdt ▸ ht)

/-- A large object takes over what another one has, or keeps what it has. -/
theorem moved (h : s.Tidy) (hk : s.object y = some k) (hx : s.transactionOf x = none) :
    ((s.letGo y k).withObject x k).Tidy := by
  have hnone (fd u) : ¬ s.refers fd x u := by
    intro hxu
    rw [transactionOf, hxu] at hx
    cases hx
  refine ⟨h.owned, (?_ : ∀ t, _ ≤ s.state.held.count t), fun fd => ?_⟩
  · intro t
    have hwithout := (s.letGo y k).references_withoutObject x t
    have hempty : (s.letGo y k).transactionOf x = none := by
      rw [transactionOf, LargeObjects.letGo, object_withObject]
      split
      · rfl
      · exact hx
    rw [hempty, if_neg (fun h => by cases h)] at hwithout
    have hcount := references_letGo hk t
    have hheld := h.held t
    rw [references_withObject]
    omega
  · refine ((h.accounted fd).rename (Equiv.swap x y)).congr fun z u => ?_
    unfold refers
    rw [object_withObject, LargeObjects.letGo, object_withObject]
    by_cases hzx : z = x
    · subst hzx
      rw [if_pos rfl, Equiv.swap_apply_left, hk]
    · rw [if_neg hzx]
      by_cases hzy : z = y
      · subst hzy
        rw [if_pos rfl, Equiv.swap_apply_right]
        exact iff_of_false (by simp) (hnone fd u)
      · rw [if_neg hzy, Equiv.swap_apply_of_ne_of_ne hzx hzy]

/-- A large object that does not refer to a transaction is removed. -/
theorem removed (h : s.Tidy) (hx : s.transactionOf x = none) : (s.withoutObject x).Tidy := by
  have hsame (t : Addr) := Nat.le_of_eq (references_withoutObject_of_none hx t)
  refine ⟨h.owned, fun t => Nat.le_trans (hsame t) (h.held t), fun fd => ?_⟩
  refine (h.accounted fd).congr fun y t => ?_
  unfold refers
  rw [object_withoutObject]
  split
  · rename_i hyx
    subst hyx
    refine iff_of_false (fun hy => by cases hy) fun hy => ?_
    rw [transactionOf, hy] at hx
    cases hx
  · rfl

theorem hold (h : s.Tidy) (ht : s.state.live t = true) : (s.withHandle t).Tidy := by
  obtain ⟨o, ho, -⟩ := (Option.any_eq_true _ _).mp ht
  refine ⟨h.owned.hold ho, fun u => ?_, h.accounted⟩
  exact Nat.le_trans (h.held u) List.count_le_count_cons

/-- A descriptor is opened for a large object, which keeps the shared pointer. -/
theorem opened (h : s.Tidy) (hheld : s.references t < s.state.held.count t) (hx : s.object x = none)
    (hfd : ∀ d ∈ (s.descriptors fd).head?, d.isOpen = false) (hended : ∀ y u, s.refers fd y u → ¬ s.state.live u = true)
    (ht : s.state.live t = true) : ((s.withOpen t fd).withObject x ⟨some t, fd⟩).Tidy := by
  have hrefers (n y u) : ((s.withOpen t fd).withObject x ⟨some t, fd⟩).refers n y u ↔
      s.refers n y u ∨ y = x ∧ n = fd ∧ u = t := by
    unfold refers
    rw [object_withObject]
    by_cases hyx : y = x
    · subst hyx
      rw [if_pos rfl, hx]
      simp [eq_comm, and_comm]
    · rw [if_neg hyx]
      simp [hyx, object, withOpen]
  refine h.of_change fd h.owned ?_ (fun _ => rfl) ?_ (fun n hn => update_of_ne hn _ _) ?_
  · intro u
    have hnone : (s.withOpen t fd).transactionOf x = none := by
      show (s.object x).bind _ = none
      rw [hx, Option.bind_none]
    have hsame : (s.withOpen t fd).references u = s.references u := rfl
    have hone := h.held u
    show _ ≤ s.state.held.count u
    rw [references_withObject, references_withoutObject_of_none hnone, hsame]
    by_cases hu : t = u
    · subst hu
      rw [if_pos rfl]
      omega
    · rw [if_neg (fun h => hu (Option.some.inj h))]
      omega
  · intro n hn y u
    rw [hrefers]
    exact or_iff_left fun hy => hn hy.2.1
  · have haccounted := (h.accounted fd).opened hfd hended ht x s.state.currentBlock
    rw [show ((s.withOpen t fd).withObject x ⟨some t, fd⟩).descriptors fd = _ from update_self _ _ _]
    refine haccounted.congr fun y u => ?_
    rw [hrefers]
    simp

/-- The server closes a descriptor. -/
theorem expired (h : s.Tidy) (fd : Nat) : (s.withExpired fd).Tidy := by
  refine h.of_change fd h.owned h.held (fun _ => rfl) (fun _ _ _ _ => Iff.rfl) (fun n hn => update_of_ne hn _ _) ?_
  show Accounted _ (s.refers fd) (update s.descriptors fd _ fd)
  rw [update_self]
  exact (h.accounted fd).expired

end Tidy

/-! ### What the functions do -/

section Functions

variable {Q : Unit → LargeObjects DB → Prop} {E : Exn → LargeObjects DB → Prop}

theorem wp_underlyingRawPtr :
    wp ub (underlyingRawPtr t) Q E s ↔ (s.state.live t = true → Q () s) ∧ (s.state.live t = false → ub) := by
  simp only [underlyingRawPtr, onState, wp_zoom, derefConnection, wp_bind, wp_deref, wp_ite, wp_pure, wp_undefined,
    State.live]
  cases ho : s.state.object t with
  | none => simp
  | some o => cases hc : o.connected <;> simp [hc]

theorem wp_deref {Q : LargeObject → LargeObjects DB → Prop} :
    wp ub (deref x) Q E s ↔ (∀ k, s.object x = some k → Q k s) ∧ (s.object x = none → ub) := by
  unfold wp deref
  cases s.object x <;> simp [Outcome.Sat]

theorem wp_deref_eq {Q : LargeObject → LargeObjects DB → Prop} (hk : s.object x = some k) :
    wp ub (deref x) Q E s ↔ Q k s := by
  rw [wp_deref, hk]
  simp

theorem wp_put : wp ub (put x k) Q E s ↔ Q () (s.withObject x k) := Iff.rfl

/-- A function of libpq that fails touches the connection only. -/
theorem answer_spec {Q : Bool → LargeObjects DB → Prop} (hdone : r = .done → Q true s)
    (hfailed : ∀ c, Q false { s with state := { s.state with conn := c } }) : wp ub (answer r) Q E s := by
  cases r with
  | done => exact hdone rfl
  | error => exact hfailed _
  | unsent => exact hfailed s.state.conn

theorem answerFor_spec {Q : Bool → LargeObjects DB → Prop} (hdone : Q true s)
    (hfailed : ∀ c, Q false { s with state := { s.state with conn := c } }) : wp ub (answerFor fd r) Q E s := by
  rw [answerFor, wp_bind, wp_get]
  exact answer_spec (fun _ => hdone) hfailed

theorem loClose_spec {Q : Bool → LargeObjects DB → Prop} (hdone : Q true (s.withClose fd true))
    (hfailed : ∀ c, Q false (withClose { s with state := { s.state with conn := c } } fd false)) :
    wp ub (loClose fd r) Q E s := by
  rw [loClose, wp_bind]
  exact answerFor_spec hdone hfailed

theorem loOpen_spec {Q : Option Nat → LargeObjects DB → Prop} (hdone : r = .done → Q (some fd) (s.withOpen t fd))
    (hfailed : ∀ c, Q none { s with state := { s.state with conn := c } }) : wp ub (loOpen t r fd) Q E s := by
  rw [loOpen, wp_bind]
  exact answer_spec hdone hfailed

end Functions

/-- Code that does not run into a large object's transaction. -/
theorem Tidy.leaves {z : Prog DB Unit} (h : s.Tidy) (howned : Leaves z State.Owned s.state)
    (hkeeps : ∀ t n, n < s.references t →
      Leaves z (fun st => n < st.held.count t ∧ (s.state.over t → st.over t)) s.state) :
    Leaves z (fun st => ({ s with state := st } : LargeObjects DB).Tidy) s.state := by
  have hall : Leaves z (fun st => ∀ t n, n < s.references t → n < st.held.count t ∧ (s.state.over t → st.over t))
      s.state := by
    refine Leaves.all fun t => Leaves.all fun n => ?_
    by_cases hn : n < s.references t
    · exact (hkeeps t n hn).mono fun _ hst _ => hst
    · exact wp_trivial (fun _ _ hn' => absurd hn' hn) fun _ _ hn' => absurd hn' hn
  exact (howned.and hall).mono fun st hst => h.of_keeps hst.1 hst.2

/-- A shared pointer other than those of the large objects is dropped. -/
theorem drop_spec (h : s.Tidy) (ht : s.references t < s.state.held.count t) :
    wp False (onState (dropHandle W t)) (fun _ s' => s'.Tidy ∧ ∃ st, s' = { s with state := st })
      (fun _ _ => False) s := by
  have hdropped := h.owned.drop t
  have halive : (s.state.object t).isSome := h.owned.alive t (.inl (List.count_pos_iff.mp (Nat.zero_lt_of_lt ht)))
  have hreturns : Returns (dropHandle W t) s.state := by
    rw [Returns, dropHandle, wp_bind, wp_modify]
    exact release_returns hdropped.1 halive
  have howned : Leaves (dropHandle W t) State.Owned s.state := by
    rw [dropHandle, leaves_bind, wp_modify]
    exact (release_owned t _ hdropped.1).mono fun _ hst => hst.1
  have hkeeps : ∀ u n, n < s.references u →
      Leaves (dropHandle W t) (fun st => n < st.held.count u ∧ (s.state.over u → st.over u)) s.state := by
    intro u n hn
    have hheld := h.held u
    refine dropHandle_keeps (fun htu => ?_) (Nat.lt_of_lt_of_le hn hheld)
    subst htu
    omega
  rw [onState, wp_zoom]
  exact wp_of_returns hreturns (wp_mono (h.leaves howned hkeeps) (fun _ st hst => ⟨hst, st, rfl⟩) fun _ _ => id)

/-- The shared pointer of a large object is reset. -/
theorem reset_spec (hk : s.object x = some k) (h : (s.letGo x k).Tidy)
    (hheld : ∀ t, s.references t ≤ s.state.held.count t) :
    wp False (resetTransaction W x) (fun _ s' => s'.Tidy ∧ ∃ st, s' = { s.letGo x k with state := st })
      (fun _ _ => False) s := by
  rw [resetTransaction, wp_bind, wp_deref_eq hk, wp_bind, wp_put]
  cases hkt : k.transaction with
  | none => exact ⟨h, (s.letGo x k).state, rfl⟩
  | some t =>
    have hcount := references_letGo hk t
    rw [hkt, if_pos rfl] at hcount
    have hone := hheld t
    exact drop_spec h (by show _ < s.state.held.count t; omega)

/-- What `close` leaves: the large object has let go, or `lo_close` failed for its descriptor. -/
theorem close_spec (h : s.Tidy) (hk : s.object x = some k)
    (hlive : ∀ t, k.transaction = some t → s.state.live t = true) :
    wp False (close W x r)
      (fun _ s' => s'.Tidy ∧ s'.transactionOf x = none ∧ ∀ y, (s'.object y).isSome = (s.object y).isSome)
      (fun _ s' => s'.Tidy ∧ s'.object x = some k ∧
        ∀ t, k.transaction = some t → ∀ d ∈ s'.descriptors k.fd, d.transaction = t → d.closes ≠ []) s := by
  rw [close, wp_bind, wp_deref_eq hk]
  obtain ⟨p, fd⟩ := k
  cases p with
  | none => exact ⟨h, transactionOf_eq hk, fun _ => rfl⟩
  | some t =>
    have ht := hlive t rfl
    have hx : s.refers fd x t := hk
    rw [wp_bind, wp_underlyingRawPtr]
    refine ⟨fun _ => ?_, fun hdead => absurd (ht.symm.trans hdead) (by decide)⟩
    rw [wp_bind]
    refine loClose_spec ?_ fun c => ?_
    · simp only [↓reduceIte]
      refine wp_mono (reset_spec (s := s.withClose fd true) hk (h.closed hx ht) h.held) ?_ fun _ _ => False.elim
      rintro _ s' ⟨htidy, st, rfl⟩
      refine ⟨htidy, ?_, fun y => ?_⟩
      · exact transactionOf_letGo (s.withClose fd true) x ⟨some t, fd⟩
      · show (((s.withClose fd true).letGo x ⟨some t, fd⟩).object y).isSome = _
        rw [letGo, object_withObject]
        split
        · rename_i hy
          rw [hy, hk]
          rfl
        · rfl
    · have hconn := h.conn c
      refine ⟨hconn.refused hx ht, hk, ?_⟩
      rintro u hu d hd hdu
      obtain rfl := Option.some.inj hu
      exact hconn.refused_called ht hd hdu

theorem moveConstruct_spec (h : s.Tidy) (hx : s.object x = none) (hy : (s.object y).isSome) :
    wp False (moveConstruct x y) (fun _ s' => s'.Tidy) (fun _ _ => False) s := by
  obtain ⟨k, hk⟩ := Option.isSome_iff_exists.mp hy
  rw [moveConstruct, wp_bind, wp_deref_eq hk]
  exact h.moved hk (by rw [transactionOf, hx, Option.bind_none])

theorem moveAssign_spec (h : s.Tidy) (hx : (s.object x).isSome) (hy : (s.object y).isSome)
    (hlive : ∀ t ∈ s.transactionOf x, s.state.live t = true) :
    wp False (moveAssign W x y r) (fun _ s' => s'.Tidy) (fun _ s' => s'.Tidy) s := by
  obtain ⟨k, hk⟩ := Option.isSome_iff_exists.mp hx
  rw [transactionOf_eq hk] at hlive
  rw [moveAssign, wp_bind]
  refine wp_mono (close_spec h hk hlive) (fun _ s' hs' => ?_) fun _ s' hs' => hs'.1
  obtain ⟨htidy, hnone, hsome⟩ := hs'
  -- the other one is still there
  obtain ⟨k', hk'⟩ := Option.isSome_iff_exists.mp ((hsome y).trans hy)
  rw [wp_bind, wp_deref_eq hk']
  exact htidy.moved hk' hnone

theorem operate_spec (h : s.Tidy) (f : Operation) (ht : s.transactionOf x = some t)
    (hlive : s.state.live t = true) :
    wp False (operate f x r) (fun _ s' => s'.Tidy) (fun _ s' => s'.Tidy) s := by
  obtain ⟨k, hk, hkt⟩ := Option.bind_eq_some_iff.mp ht
  rw [operate, wp_bind, wp_deref_eq hk]
  obtain ⟨p, fd⟩ := k
  obtain rfl : p = some t := hkt
  rw [wp_bind, wp_underlyingRawPtr]
  refine ⟨fun _ => ?_, fun hdead => absurd (hlive.symm.trans hdead) (by decide)⟩
  rw [wp_bind]
  exact answerFor_spec h fun c => h.conn c

/-- The destructor lets no exception out. -/
theorem destroy_spec (h : s.Tidy) (hx : (s.object x).isSome)
    (hlive : ∀ t ∈ s.transactionOf x, s.state.live t = true) :
    wp False (destroy W x r) (fun _ s' => s'.Tidy) (fun _ _ => False) s := by
  obtain ⟨k, hk⟩ := Option.isSome_iff_exists.mp hx
  rw [transactionOf_eq hk] at hlive
  -- the member is destroyed, and then there is no large object any more
  have members {s' : LargeObjects DB} {k' : LargeObject} (h' : s'.Tidy) (hk' : s'.object x = some k')
      (hcalled : ∀ t, k'.transaction = some t → ∀ d ∈ s'.descriptors k'.fd, d.transaction = t → d.closes ≠ []) :
      wp False (resetTransaction W x)
        (fun _ s' => wp False (Exec.modify fun s => { s with objects := s.objects.erase x } : Exec _ Exn Unit)
          (fun _ s' => s'.Tidy) (fun _ _ => False) s') (fun _ _ => False) s' := by
    refine wp_mono (reset_spec hk' (h'.letGo hk' hcalled) h'.held) ?_ fun _ _ => id
    rintro _ s'' ⟨htidy, st, rfl⟩
    exact htidy.removed (transactionOf_letGo s' x k')
  rw [destroy, wp_bind, wp_catchAll]
  refine wp_mono (close_spec h hk hlive) (fun _ s' hs' => ?_) fun _ s' hs' => ?_
  · obtain ⟨htidy, hnone, hsome⟩ := hs'
    obtain ⟨k', hk'⟩ := Option.isSome_iff_exists.mp ((hsome x).trans hx)
    rw [transactionOf_eq hk'] at hnone
    rw [wp_bind]
    exact members htidy hk' fun t ht => by rw [hnone] at ht; cases ht
  · rw [wp_pure, wp_bind]
    exact members hs'.1 hs'.2.1 hs'.2.2

theorem openObject_spec {Q : Unit → LargeObjects DB → Prop} (h : s.Tidy) (ht : s.state.live t = true)
    (hdone : r = .done → Q () (((s.withHandle t).withOpen t fd).withObject x ⟨some t, fd⟩)) :
    wp False (openObject W t x r fd) Q (fun _ s' => s'.Tidy) s := by
  have hheld := h.held t
  have hslack : s.references t < (t :: s.state.held).count t := by
    rw [List.count_cons_self]
    omega
  rw [openObject, wp_bind, onState, wp_zoom, wp_hold, wp_bind, wp_underlyingRawPtr]
  refine ⟨fun _ => ?_, fun hdead => absurd (ht.symm.trans hdead) (by decide)⟩
  rw [wp_bind]
  refine loOpen_spec hdone fun c => ?_
  rw [wp_bind]
  exact wp_mono (drop_spec ((h.hold ht).conn c) hslack) (fun _ s' hs' => hs'.1) fun _ _ => False.elim

/-- The descriptor is that of the large object, if nobody else refers to the number. -/
theorem Tidy.openObject (h : s.Tidy) (hx : s.object x = none) (hfd : ∀ d ∈ (s.descriptors fd).head?, d.isOpen = false)
    (hended : ∀ y u, s.refers fd y u → ¬ s.state.live u = true) (ht : s.state.live t = true) :
    (((s.withHandle t).withOpen t fd).withObject x ⟨some t, fd⟩).Tidy := by
  have hheld := h.held t
  refine (h.hold ht).opened ?_ hx hfd hended ht
  show s.references t < (t :: s.state.held).count t
  rw [List.count_cons_self]
  omega

end LargeObjects

end TaoPQ
