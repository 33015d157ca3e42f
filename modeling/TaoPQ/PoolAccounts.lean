import TaoPQ.PoolOwners
import Mathlib.Data.Finset.Card
import Mathlib.Order.Interval.Finset.Nat

/-!
# What a pool counts

`m_attached` is the number of items whose deleter refers to the pool, less those that a thread is just about to count,
or has just ceased to count (`Accounts`).  And what becomes of an item is what its deleter decides: every call of it
returns the item to a pool, or deletes it (`Stories`).
-/

namespace TaoPQ.Pool

open Function Custody

variable {Thread : Type}

/-! ### The accounts -/

/-- The items that are not counted while the frame is on a stack, although their deleter may refer to a pool. -/
def Frame.uncharged : Frame → List Item
  | .lend _ i => [i]
  | .attach h _ => [h.item]
  | .attachTo h _ => [h.item]
  | .push _ i => [i]
  | .delete i => [i]
  | _ => []

/-- What a frame knows of the deleters. -/
def Frame.Fits (d : Item → Option PoolId) : Frame → Prop
  | .lend p i => d i = some p
  | .pulled _ i => d i = none
  | .detachFrom h o _ => d h.item = some o
  | .attachTo h n => d h.item = some n
  | .deleterFrom p i => d i = some p
  | _ => True

/-- The pools that a frame will use. -/
def Frame.mentions : Frame → List PoolId
  | .create p => [p]
  | .lend p _ => [p]
  | .pull p => [p]
  | .pulled p _ => [p]
  | .eraseInvalid p => [p]
  | .detach _ target => target.join.toList
  | .detachFrom _ o target => o :: target.join.toList
  | .attach _ target => target.join.toList
  | .attachTo _ n => [n]
  | .deleterFrom p _ => [p]
  | .push p _ => [p]
  | .releasePool p => [p]
  | _ => []

/-- All items of a frame. -/
def Frame.touches (f : Frame) : List Item := f.held ++ (f.pinned.map Handle.item).toList

theorem Frame.uncharged_touches {f : Frame} {i : Item} (h : i ∈ f.uncharged) : i ∈ f.touches := by
  cases f <;> simp_all [uncharged, touches, held, pinned]

theorem Frame.Fits.congr {f : Frame} {d d' : Item → Option PoolId} (h : f.Fits d)
    (hd : ∀ i ∈ f.touches, d' i = d i) : f.Fits d' := by
  cases f <;> simp_all [Fits, touches, held, pinned]

namespace State

variable (s : State Thread)

def Uncharged (i : Item) : Prop := ∃ k, ∃ f ∈ s.threads k, i ∈ f.uncharged

open Classical in
/-- The items that a pool counts. -/
noncomputable def charged (p : PoolId) : Finset Item :=
  (Finset.range s.created).filter fun i => s.deleterPool i = some p ∧ ¬ s.Uncharged i

variable {s}

theorem mem_charged {p : PoolId} {i : Item} :
    i ∈ s.charged p ↔ i < s.created ∧ s.deleterPool i = some p ∧ ¬ s.Uncharged i := by
  simp [charged]

/-- The books of the pools. -/
structure Accounts (s : State Thread) : Prop where
  owned : ∀ i, s.deleterPool i ≠ none → ∃ o, s.custody.Has o i
  known : ∀ i p, s.deleterPool i = some p → p < s.pools
  mentions : ∀ k, ∀ f ∈ s.threads k, ∀ p ∈ f.mentions, p < s.pools
  owners : ∀ p, 0 < s.owners p → p < s.pools
  fits : ∀ k, ∀ f ∈ s.threads k, f.Fits s.deleterPool
  attached : ∀ p, s.Living p → s.attached p = (s.charged p).card

/-- The item is with the next frame of the thread only. -/
def Isolated (s : State Thread) (k : Thread) (rest : List Frame) (i : Item) : Prop :=
  (∀ g ∈ rest, i ∉ g.touches) ∧ ∀ k', k' ≠ k → ∀ g ∈ s.threads k', i ∉ g.touches

end State

section Isolation

variable {s : State Thread} {k : Thread} {f : Frame} {rest : List Frame} {i : Item}

theorem mem_touches : i ∈ f.touches ↔ i ∈ f.held ∨ ∃ x, f.pinned = some x ∧ x.item = i := by
  simp [Frame.touches]

theorem has_of_touches {g : Frame} (hg : g ∈ s.threads k) (hi : i ∈ g.touches) :
    i ∈ s.custody.held k ∨ ∃ x ∈ s.custody.pinned k, x.item = i := by
  refine (mem_touches.1 hi).imp (fun hi => ?_) fun hi => ?_
  · exact List.mem_flatMap.2 ⟨g, hg, hi⟩
  · obtain ⟨x, hx, hi⟩ := hi
    exact ⟨x, List.mem_filterMap.2 ⟨g, hg, hx⟩, hi⟩

theorem owned_of_touches {g : Frame} (hg : g ∈ s.threads k) (hi : i ∈ g.touches) : ∃ o, s.custody.Has o i := by
  rcases has_of_touches hg hi with hi | ⟨x, hx, rfl⟩
  · exact ⟨.thread k, hi⟩
  · exact ⟨.borrower x.borrow, .inr ⟨k, hx⟩⟩

/-- What a thread works on is not stored in a pool. -/
theorem not_stored (hs : s.custody.Sound) {g : Frame} (hg : g ∈ s.threads k) (hi : i ∈ g.touches) (p : PoolId) :
    i ∉ s.items p := by
  intro hp
  rcases has_of_touches hg hi with hi | ⟨x, hx, rfl⟩
  · cases hs.exclusive (.thread k) (.pool p) i hi hp
  · cases hs.exclusive (.borrower x.borrow) (.pool p) x.item (.inr ⟨k, hx⟩) hp

/-- What a thread owns by its next frame is nobody else's. -/
theorem held_apart (hs : s.custody.Sound) (hk : s.threads k = f :: rest) (hi : i ∈ f.held) :
    (∀ g ∈ rest, i ∉ g.held) ∧ ∀ k', k' ≠ k → ∀ g ∈ s.threads k', i ∉ g.held := by
  refine ⟨fun g hg hig => ?_, fun k' hk' g hg hig => ?_⟩
  · have hnodup := hs.held k
    simp only [State.custody, hk, List.flatMap_cons] at hnodup
    exact (List.nodup_append.1 hnodup).2.2 i hi i (List.mem_flatMap.2 ⟨g, hg, hig⟩) rfl
  · have hf : i ∈ s.custody.held k := List.mem_flatMap.2 ⟨f, by simp [hk], hi⟩
    exact hk' (Owner.thread.inj (hs.exclusive (.thread k') (.thread k) i (List.mem_flatMap.2 ⟨g, hg, hig⟩) hf))

/-- The item of the next frame is nobody else's. -/
theorem isolated_of_touches (hs : s.custody.Sound) (ha : s.custody.Apart) (hk : s.threads k = f :: rest)
    (hi : i ∈ f.touches) : s.Isolated k rest i := by
  have hmem : f ∈ s.threads k := by simp [hk]
  have hapart {k' : Thread} {x : Handle} (hx : x ∈ s.custody.pinned k') (hh : ∃ k'', x.item ∈ s.custody.held k'') :
      False := by
    obtain ⟨k'', hh⟩ := hh
    cases hs.exclusive (.borrower x.borrow) (.thread k'') x.item (.inr ⟨k', hx⟩) hh
  refine ⟨fun g hg hig => ?_, fun k' hk' g hg hig => ?_⟩
  · have hgk : g ∈ s.threads k := by simp [hk, hg]
    rcases mem_touches.1 hi with hf | ⟨x, hx, rfl⟩ <;> rcases mem_touches.1 hig with hg' | ⟨y, hy, hyx⟩
    · exact (held_apart hs hk hf).1 g hg hg'
    · subst hyx
      exact hapart (List.mem_filterMap.2 ⟨g, hgk, hy⟩) ⟨k, List.mem_flatMap.2 ⟨f, hmem, hf⟩⟩
    · exact hapart (List.mem_filterMap.2 ⟨f, hmem, hx⟩) ⟨k, List.mem_flatMap.2 ⟨g, hgk, hg'⟩⟩
    · have hnodup := ha.pinned k
      simp only [State.custody, hk, List.filterMap_cons_some hx, List.map_cons] at hnodup
      exact (List.nodup_cons.1 hnodup).1 (List.mem_map.2 ⟨y, List.mem_filterMap.2 ⟨g, hg, hy⟩, hyx⟩)
  · rcases has_of_touches hmem hi with hf | ⟨x, hx, rfl⟩ <;> rcases has_of_touches hg hig with hg' | ⟨y, hy, hyx⟩
    · exact hk' (Owner.thread.inj (hs.exclusive (.thread k') (.thread k) i hg' hf))
    · subst hyx
      exact hapart hy ⟨k, hf⟩
    · exact hapart hx ⟨k', hg'⟩
    · exact hk' (ha.pins k' k y x hy hx hyx)

/-- The next item to be created is nobody's. -/
theorem isolated_created (hs : s.custody.Sound) (hk : s.threads k = f :: rest) : s.Isolated k rest s.created := by
  have hfresh (k' : Thread) (g : Frame) (hg : g ∈ s.threads k') : s.created ∉ g.touches := by
    intro hi
    obtain ⟨o, ho⟩ := owned_of_touches hg hi
    exact lt_irrefl _ (hs.created o _ ho)
  exact ⟨fun g hg => hfresh k g (by simp [hk, hg]), fun k' _ g hg => hfresh k' g hg⟩

end Isolation

/-! ### The items in the pools -/

/-- The items that are stored in a pool are not attached to any. -/
def State.Unattached (s : State Thread) : Prop := ∀ p i, i ∈ s.items p → s.deleterPool i = none

section Unattached

variable {s s' : State Thread} {k : Thread} {f : Frame} {rest : List Frame}

theorem State.Unattached.mono (h : s.Unattached) (items : ∀ p i, i ∈ s'.items p → i ∈ s.items p)
    (deleterPool : ∀ p i, i ∈ s.items p → s'.deleterPool i = none ∨ s'.deleterPool i = s.deleterPool i) :
    s'.Unattached := by
  intro p i hi
  have hold := items p i hi
  exact (deleterPool p i hold).elim id fun heq => heq.trans (h p i hold)

theorem mem_setItems {p q : PoolId} {is : List Item} {i : Item} (hsub : ∀ i ∈ is, i ∈ s.items p)
    (hi : i ∈ update s.items p is q) : i ∈ s.items q := by
  by_cases hq : q = p
  · subst hq
    exact hsub i (by simpa using hi)
  · rwa [update_of_ne hq] at hi

variable [Fintype Thread] [DecidableEq Thread]

/-- A deleter is set only while the item is with the thread, and cleared before the item is stored. -/
theorem State.Unattached.runFrame (h : s.Unattached) (hs : s.custody.Sound) (hk : s.threads k = f :: rest)
    (valid : Item → Bool) (creates : Bool) : (Pool.runFrame valid creates s k rest f).Unattached := by
  have hf : f ∈ s.threads k := by simp [hk]
  have hset {i : Item} (hi : ∀ p, i ∉ s.items p) (d : Option PoolId) (p : PoolId) (j : Item) (hj : j ∈ s.items p) :
      update s.deleterPool i d j = s.deleterPool j := by
    refine update_of_ne (fun heq => ?_) _ _
    exact hi p (heq ▸ hj)
  have htouched {i : Item} (hi : i ∈ f.touches) : ∀ p, i ∉ s.items p := not_stored hs hf hi
  cases f with
  | create p =>
    simp only [Pool.runFrame]
    split
    · refine h.mono (fun _ _ => id) fun q j hj => .inr (hset (fun q hq => ?_) _ q j hj)
      exact lt_irrefl _ (hs.created (.pool q) _ hq)
    · exact h
  | pull p =>
    simp only [Pool.runFrame]
    split
    · exact h.mono (fun q j hj => mem_setItems (fun i => List.mem_of_mem_dropLast) hj) fun _ _ _ => .inr rfl
    · exact h
  | pulled p i =>
    simp only [Pool.runFrame]
    split
    · exact h.mono (fun _ _ => id) fun q j hj =>
        .inr (hset (htouched (by simp [Frame.touches, Frame.held])) _ q j hj)
    · exact h
  | eraseInvalid p =>
    exact h.mono (fun q j hj => mem_setItems (fun i => List.mem_of_mem_filter) hj) fun _ _ _ => .inr rfl
  | detach x target =>
    simp only [Pool.runFrame]
    split <;> exact h
  | attach x target =>
    have hx := htouched (i := x.item) (by simp [Frame.touches, Frame.pinned])
    simp only [Pool.runFrame]
    split <;> exact h.mono (fun _ _ => id) fun q j hj => .inr (hset hx _ q j hj)
  | deleter i =>
    simp only [Pool.runFrame]
    split <;> exact h
  | push p i =>
    simp only [Pool.runFrame]
    split
    · intro q j hj
      by_cases hji : j = i
      · exact hji ▸ update_self _ _ _
      · refine (update_of_ne hji _ _).trans (h q j ?_)
        have hj : j ∈ update s.items p (s.items p ++ [i]) q := hj
        by_cases hq : q = p
        · subst hq
          simpa [hji] using hj
        · rwa [update_of_ne hq] at hj
    · exact h
  | delete i =>
    exact h.mono (fun _ _ => id) fun q j hj => .inr (hset (htouched (by simp [Frame.touches, Frame.held])) _ q j hj)
  | releasePool p =>
    simp only [Pool.runFrame]
    split
    · exact h
    · exact h.mono (fun q j hj => mem_setItems (s := s) (by simp) hj) fun _ _ _ => .inr rfl
  | destroyItems is => cases is <;> exact h
  | _ => exact h

theorem State.Unattached.step (h : s.Unattached) (hs : s.custody.Sound) {a : Action Thread}
    (hstep : Pool.step s a = some s') : s'.Unattached := by
  cases step_effect hstep with
  | run hk valid creates => exact h.runFrame hs hk valid creates
  | _ => exact h

end Unattached

/-- Two sets that differ at most in one element. -/
theorem card_of_agree {A B : Finset Item} {i : Item} (h : ∀ j, j ≠ i → (j ∈ A ↔ j ∈ B)) :
    (A.card : Int) = B.card + (if i ∈ A then 1 else 0) - (if i ∈ B then 1 else 0) := by
  have herase : A.erase i = B.erase i := by
    ext j
    by_cases hj : j = i
    · simp [hj]
    · simp [hj, h j hj]
  have hA := Finset.card_erase_add_one (s := A) (a := i)
  have hB := Finset.card_erase_add_one (s := B) (a := i)
  rw [herase] at hA
  by_cases hiA : i ∈ A <;> by_cases hiB : i ∈ B <;> simp only [hiA, hiB, if_true, if_false]
  · have := hA hiA
    have := hB hiB
    omega
  · have := hA hiA
    rw [Finset.erase_eq_of_notMem hiB] at this
    omega
  · rw [Finset.erase_eq_of_notMem hiA] at herase
    have := hB hiB
    rw [← herase] at this
    omega
  · rw [Finset.erase_eq_of_notMem hiA, Finset.erase_eq_of_notMem hiB] at herase
    rw [herase]
    omega

/-! ### The steps of a thread -/

section Exchange

variable [DecidableEq Thread]

/-- The next frame of a thread is exchanged for others, which concerns one item. -/
structure Exchange (s s' : State Thread) (k : Thread) (f : Frame) (rest l : List Frame) (i : Item) : Prop where
  stack : s.threads k = f :: rest
  isolated : s.Isolated k rest i
  threads : s'.threads = update s.threads k (l ++ rest)
  pools : s'.pools = s.pools
  owners : s'.owners = s.owners
  move : Move True s.custody f.deleted s'.custody
  deleted : f.deleted = none ∨ f.deleted = some i
  deleterPool : ∀ j, j ≠ i → s'.deleterPool j = s.deleterPool j
  created : ∀ j, j ≠ i → (j < s'.created ↔ j < s.created)
  owned : s'.deleterPool i ≠ none → ∃ o, s'.custody.Has o i
  known : ∀ p, s'.deleterPool i = some p → p < s.pools
  mentions : ∀ g ∈ l, ∀ p ∈ g.mentions, p < s.pools
  fits : ∀ g ∈ l, g.Fits s'.deleterPool
  living : ∀ g ∈ l, ∀ p, g.pool = some p → s.Living p
  before : ∀ j ∈ f.uncharged, j = i
  after : ∀ g ∈ l, ∀ j ∈ g.uncharged, j = i
  attached : ∀ p, s.Living p → s'.attached p = s.attached p +
    (if i < s'.created ∧ s'.deleterPool i = some p ∧ ∀ g ∈ l, i ∉ g.uncharged then 1 else 0) -
    (if i < s.created ∧ s.deleterPool i = some p ∧ i ∉ f.uncharged then 1 else 0)

namespace Exchange

variable {s s' : State Thread} {k : Thread} {f : Frame} {rest l : List Frame} {i : Item}

theorem mem_threads (e : Exchange s s' k f rest l i) {k' : Thread} {g : Frame} (hg : g ∈ s'.threads k') :
    g ∈ l ∨ g ∈ s.threads k' ∧ i ∉ g.touches := by
  rw [e.threads] at hg
  by_cases hk' : k' = k
  · subst hk'
    rw [update_self] at hg
    refine (List.mem_append.1 hg).imp_right fun hg => ⟨?_, e.isolated.1 g hg⟩
    rw [e.stack]
    exact List.mem_cons_of_mem _ hg
  · rw [update_of_ne hk'] at hg
    exact .inr ⟨hg, e.isolated.2 k' hk' g hg⟩

theorem living_of (e : Exchange s s' k f rest l i) {p : PoolId} (h : s'.Living p) : s.Living p := by
  rcases h with h | ⟨k', g, hg, hp⟩
  · exact .inl (e.owners ▸ h)
  · rcases e.mem_threads hg with hg | ⟨hg, _⟩
    · exact e.living g hg p hp
    · exact .inr ⟨k', g, hg, hp⟩

/-- The other items are counted as before. -/
theorem uncharged_iff (e : Exchange s s' k f rest l i) {j : Item} (hj : j ≠ i) : s'.Uncharged j ↔ s.Uncharged j := by
  constructor
  · rintro ⟨k', g, hg, hjg⟩
    rcases e.mem_threads hg with hg | ⟨hg, _⟩
    · exact absurd (e.after g hg j hjg) hj
    · exact ⟨k', g, hg, hjg⟩
  · rintro ⟨k', g, hg, hjg⟩
    refine ⟨k', g, ?_, hjg⟩
    rw [e.threads]
    by_cases hk' : k' = k
    · subst hk'
      rw [e.stack] at hg
      rw [update_self]
      rcases List.mem_cons.1 hg with rfl | hg
      · exact absurd (e.before j hjg) hj
      · exact List.mem_append_right _ hg
    · rwa [update_of_ne hk']

theorem uncharged_before (e : Exchange s s' k f rest l i) : s.Uncharged i ↔ i ∈ f.uncharged := by
  constructor
  · rintro ⟨k', g, hg, hig⟩
    by_cases hk' : k' = k
    · subst hk'
      rw [e.stack] at hg
      rcases List.mem_cons.1 hg with rfl | hg
      · exact hig
      · exact absurd (Frame.uncharged_touches hig) (e.isolated.1 g hg)
    · exact absurd (Frame.uncharged_touches hig) (e.isolated.2 k' hk' g hg)
  · intro hi
    exact ⟨k, f, by simp [e.stack], hi⟩

theorem uncharged_after (e : Exchange s s' k f rest l i) : s'.Uncharged i ↔ ∃ g ∈ l, i ∈ g.uncharged := by
  constructor
  · rintro ⟨k', g, hg, hig⟩
    rcases e.mem_threads hg with hg | ⟨_, hn⟩
    · exact ⟨g, hg, hig⟩
    · exact absurd (Frame.uncharged_touches hig) hn
  · rintro ⟨g, hg, hig⟩
    refine ⟨k, g, ?_, hig⟩
    rw [e.threads, update_self]
    exact List.mem_append_left _ hg

theorem card_charged (e : Exchange s s' k f rest l i) (p : PoolId) : ((s'.charged p).card : Int) =
    (s.charged p).card +
      (if i < s'.created ∧ s'.deleterPool i = some p ∧ ∀ g ∈ l, i ∉ g.uncharged then 1 else 0) -
      (if i < s.created ∧ s.deleterPool i = some p ∧ i ∉ f.uncharged then 1 else 0) := by
  have hagree (j : Item) (hj : j ≠ i) : j ∈ s'.charged p ↔ j ∈ s.charged p := by
    rw [State.mem_charged, State.mem_charged, e.created j hj, e.deleterPool j hj, e.uncharged_iff hj]
  rw [card_of_agree hagree]
  simp only [State.mem_charged, e.uncharged_before, e.uncharged_after, not_exists, not_and]

end Exchange

/-- The books are in order after the step of a thread. -/
theorem State.Accounts.exchange {s s' : State Thread} {k : Thread} {f : Frame} {rest l : List Frame} {i : Item}
    (h : s.Accounts) (e : Exchange s s' k f rest l i) : s'.Accounts where
  owned j hj := by
    by_cases hji : j = i
    · subst hji
      exact e.owned hj
    · rw [e.deleterPool j hji] at hj
      refine e.move.owned (fun hgone => ?_) (h.owned j hj)
      rcases e.deleted with hd | hd
      · cases hgone.trans hd
      · exact hji (Option.some.inj (hgone.trans hd))
  known j p hp := by
    rw [e.pools]
    by_cases hji : j = i
    · subst hji
      exact e.known p hp
    · rw [e.deleterPool j hji] at hp
      exact h.known j p hp
  mentions k' g hg p hp := by
    rw [e.pools]
    rcases e.mem_threads hg with hg | ⟨hg, _⟩
    · exact e.mentions g hg p hp
    · exact h.mentions k' g hg p hp
  owners p hp := by
    rw [e.owners] at hp
    rw [e.pools]
    exact h.owners p hp
  fits k' g hg := by
    rcases e.mem_threads hg with hg | ⟨hg, hn⟩
    · exact e.fits g hg
    · exact (h.fits k' g hg).congr fun j hj => e.deleterPool j fun hji => hn (hji ▸ hj)
  attached p hp := by
    have hl := e.living_of hp
    rw [e.attached p hl, e.card_charged, h.attached p hl]

/-- Nothing changes for any item. -/
theorem Exchange.plain {s s' : State Thread} {k : Thread} {f : Frame} {rest l : List Frame} (h : s.Accounts)
    (hs : s.custody.Sound) (hk : s.threads k = f :: rest) (move : Move True s.custody f.deleted s'.custody)
    (deleted : f.deleted = none) (threads : s'.threads = update s.threads k (l ++ rest)) (pools : s'.pools = s.pools)
    (owners : s'.owners = s.owners) (deleterPool : s'.deleterPool = s.deleterPool) (created : s'.created = s.created)
    (attached : s'.attached = s.attached) (mentions : ∀ g ∈ l, ∀ p ∈ g.mentions, p < s.pools)
    (fits : ∀ g ∈ l, g.Fits s.deleterPool) (living : ∀ g ∈ l, ∀ p, g.pool = some p → s.Living p)
    (before : f.uncharged = []) (after : ∀ g ∈ l, g.uncharged = []) : Exchange s s' k f rest l s.created := by
  have hno (o : Owner Thread) : ¬ s.custody.Has o s.created := fun ho => lt_irrefl _ (hs.created o _ ho)
  refine ⟨hk, isolated_created hs hk, threads, pools, owners, move, .inl deleted, fun j _ => by rw [deleterPool],
    fun j _ => by rw [created], fun hn => ?_, fun p hp => ?_, mentions, by rwa [deleterPool], living, by simp [before],
    fun g hg => by simp [after g hg], fun p _ => by simp [attached, created]⟩
  · obtain ⟨o, ho⟩ := h.owned _ (deleterPool ▸ hn)
    exact absurd ho (hno o)
  · exact h.known _ p (deleterPool ▸ hp)

/-- The deleters stay as they are, but a pool may count the item in a different way. -/
theorem Exchange.counted {s s' : State Thread} {k : Thread} {f : Frame} {rest l : List Frame} {i : Item} (h : s.Accounts)
    (hs : s.custody.Sound) (ha : s.custody.Apart) (hk : s.threads k = f :: rest) (hi : i ∈ f.touches)
    (move : Move True s.custody f.deleted s'.custody) (deleted : f.deleted = none)
    (threads : s'.threads = update s.threads k (l ++ rest)) (pools : s'.pools = s.pools) (owners : s'.owners = s.owners)
    (deleterPool : s'.deleterPool = s.deleterPool) (created : s'.created = s.created)
    (mentions : ∀ g ∈ l, ∀ p ∈ g.mentions, p < s.pools) (fits : ∀ g ∈ l, g.Fits s.deleterPool)
    (living : ∀ g ∈ l, ∀ p, g.pool = some p → s.Living p) (before : ∀ j ∈ f.uncharged, j = i)
    (after : ∀ g ∈ l, ∀ j ∈ g.uncharged, j = i)
    (attached : ∀ p, s.Living p → s'.attached p = s.attached p +
      (if s.deleterPool i = some p ∧ ∀ g ∈ l, i ∉ g.uncharged then 1 else 0) -
      (if s.deleterPool i = some p ∧ i ∉ f.uncharged then 1 else 0)) : Exchange s s' k f rest l i := by
  obtain ⟨o, ho⟩ := owned_of_touches (s := s) (k := k) (by simp [hk]) hi
  have hlt : i < s.created := hs.created o i ho
  refine ⟨hk, isolated_of_touches hs ha hk hi, threads, pools, owners, move, .inl deleted, fun j _ => by rw [deleterPool],
    fun j _ => by rw [created], fun hn => ?_, fun p hp => ?_, mentions, by rwa [deleterPool], living, before, after,
    fun p hp => ?_⟩
  · exact move.owned (by simp [deleted]) (h.owned i (deleterPool ▸ hn))
  · exact h.known i p (deleterPool ▸ hp)
  · rw [attached p hp, deleterPool, created]
    simp only [hlt, true_and]

variable [Fintype Thread]

omit [DecidableEq Thread] in
theorem lock_eq_some {s : State Thread} {d : Option PoolId} {p : PoolId} (h : s.lock d = some p) :
    d = some p ∧ s.Living p := by
  unfold State.lock at h
  rw [Option.filter_eq_some_iff] at h
  exact ⟨h.1, of_decide_eq_true h.2⟩

omit [DecidableEq Thread] in
theorem lock_eq_none {s : State Thread} {d : Option PoolId} {p : PoolId} (h : s.lock d = none) (hp : s.Living p) :
    d ≠ some p := by
  rintro rfl
  unfold State.lock at h
  rw [Option.filter_eq_none_iff] at h
  exact h p rfl (decide_eq_true hp)

omit [DecidableEq Thread] [Fintype Thread] in
theorem addAttached_attached {s : State Thread} {i : Item} {p : PoolId} (hi : s.deleterPool i = some p) (n : Int)
    (q : PoolId) : (s.addAttached p n).attached q = s.attached q + if s.deleterPool i = some q then n else 0 := by
  by_cases hq : q = p
  · subst hq
    simp [State.addAttached, hi]
  · simp [State.addAttached, hi, hq, Ne.symm hq]

section RunFrame

variable {s : State Thread} {k : Thread} {f : Frame} {rest : List Frame} {p : PoolId} {i : Item} {x : Handle}
  {target : Option (Option PoolId)}

omit [DecidableEq Thread] [Fintype Thread] in
theorem State.Accounts.head_mentions (h : s.Accounts) (hk : s.threads k = f :: rest) : ∀ p ∈ f.mentions, p < s.pools :=
  h.mentions k f (by simp [hk])

omit [DecidableEq Thread] [Fintype Thread] in
theorem State.Accounts.head_fits (h : s.Accounts) (hk : s.threads k = f :: rest) : f.Fits s.deleterPool :=
  h.fits k f (by simp [hk])

omit [DecidableEq Thread] [Fintype Thread] in
theorem living_of_head (hk : s.threads k = f :: rest) (hp : f.pool = some p) : s.Living p :=
  .inr ⟨k, f, by simp [hk], hp⟩

/-! #### `create` and `get` -/

private theorem State.Accounts.run_create (h : s.Accounts) (hs : s.custody.Sound)
    (hk : s.threads k = .create p :: rest) (valid : Item → Bool) (creates : Bool) :
    (Pool.runFrame valid creates s k rest (.create p)).Accounts := by
  have hmove := runFrame_moves (d := True) valid creates hk
  have hmentions := h.head_mentions hk
  simp only [Pool.runFrame] at hmove ⊢
  split at hmove <;> rename_i hc
  · rw [if_pos hc]
    refine h.exchange (l := [.lend p s.created]) (i := s.created)
      ⟨hk, isolated_created hs hk, rfl, rfl, rfl, hmove, .inl rfl, fun j hj => update_of_ne hj _ _, fun j hj => ?_,
        fun _ => ?_, fun q hq => ?_, ?_, ?_, by simp [Frame.pool],
        by simp [Frame.uncharged], by simp [Frame.uncharged], fun q _ => ?_⟩
    · exact Nat.lt_succ_iff_lt_or_eq.trans (or_iff_left hj)
    · exact ⟨.thread k, by simp [Has, State.custody, State.setThread, Frame.held]⟩
    · obtain rfl : p = q := by simpa [State.setThread, State.setDeleterPool] using hq
      exact hmentions p (by simp [Frame.mentions])
    · simpa [Frame.mentions] using hmentions
    · simp [Frame.Fits, State.setThread, State.setDeleterPool]
    -- the new item is not counted until `lend`
    · simp [Frame.uncharged, State.setThread, State.setDeleterPool]
  · rw [if_neg hc]
    exact h.exchange (.plain (l := []) h hs hk hmove rfl rfl rfl rfl rfl rfl rfl (by simp) (by simp)
      (by simp) rfl (by simp))

private theorem State.Accounts.run_lend (h : s.Accounts) (hs : s.custody.Sound) (ha : s.custody.Apart)
    (hk : s.threads k = .lend p i :: rest) (valid : Item → Bool) (creates : Bool) :
    (Pool.runFrame valid creates s k rest (.lend p i)).Accounts := by
  have hmove := runFrame_moves (d := True) valid creates hk
  have hi : i ∈ (Frame.lend p i).touches := by simp [Frame.touches, Frame.held]
  refine h.exchange (.counted (l := []) h hs ha hk hi hmove rfl rfl rfl rfl rfl rfl (by simp) (by simp) (by simp)
    (by simp [Frame.uncharged]) (by simp) fun q _ => ?_)
  refine (addAttached_attached (h.head_fits hk) 1 q).trans ?_
  simp [Frame.uncharged]

private theorem State.Accounts.run_pull (h : s.Accounts) (hs : s.custody.Sound) (hu : s.Unattached)
    (hk : s.threads k = .pull p :: rest) (valid : Item → Bool) (creates : Bool) :
    (Pool.runFrame valid creates s k rest (.pull p)).Accounts := by
  have hmove := runFrame_moves (d := True) valid creates hk
  have hp : ∀ q ∈ (Frame.pull p).mentions, q < s.pools := h.head_mentions hk
  simp only [Pool.runFrame] at hmove ⊢
  split at hmove <;> rename_i hlast
  · rename_i i
    have hi : i ∈ s.items p := List.mem_of_getLast? hlast
    exact h.exchange (.plain (l := [.pulled p i]) h hs hk hmove rfl rfl rfl rfl rfl rfl rfl
      (by simpa [Frame.mentions] using hp) (by simpa [Frame.Fits] using hu p i hi) (by simp [Frame.pool]) rfl
      (by simp [Frame.uncharged]))
  · exact h.exchange (.plain (l := [.create p]) h hs hk hmove rfl rfl rfl rfl rfl rfl rfl
      (by simpa [Frame.mentions] using hp) (by simp [Frame.Fits]) (by simp [Frame.pool]) rfl (by simp [Frame.uncharged]))

private theorem State.Accounts.run_pulled (h : s.Accounts) (hs : s.custody.Sound) (ha : s.custody.Apart)
    (hk : s.threads k = .pulled p i :: rest) (valid : Item → Bool) (creates : Bool) :
    (Pool.runFrame valid creates s k rest (.pulled p i)).Accounts := by
  have hmove := runFrame_moves (d := True) valid creates hk
  have hmentions := h.head_mentions hk
  have hi : i ∈ (Frame.pulled p i).touches := by simp [Frame.touches, Frame.held]
  have hfits : s.deleterPool i = none := h.head_fits hk
  simp only [Pool.runFrame] at hmove ⊢
  split at hmove <;> rename_i hv
  · rw [if_pos hv]
    refine h.exchange (l := [.lend p i]) (i := i)
      ⟨hk, isolated_of_touches hs ha hk hi, rfl, rfl, rfl, hmove, .inl rfl, fun j hj => update_of_ne hj _ _,
        fun _ _ => Iff.rfl, fun _ => ?_, fun q hq => ?_, by simpa [Frame.mentions] using hmentions, ?_,
        by simp [Frame.pool], by simp [Frame.uncharged], by simp [Frame.uncharged], fun q _ => ?_⟩
    · exact ⟨.thread k, by simp [Has, State.custody, State.setThread, Frame.held]⟩
    · obtain rfl : p = q := by simpa [State.setThread, State.setDeleterPool] using hq
      exact hmentions p (by simp [Frame.mentions])
    · simp [Frame.Fits, State.setThread, State.setDeleterPool]
    -- the deleter refers to the pool already, which counts the item in `lend`
    · simp [Frame.uncharged, State.setThread, State.setDeleterPool, hfits]
  · rw [if_neg hv]
    exact h.exchange (.plain (l := [.deleter i, .pull p]) h hs hk hmove rfl rfl rfl rfl rfl rfl rfl
      (by simpa [Frame.mentions] using hmentions) (by simp [Frame.Fits]) (by simp [Frame.pool]) rfl
      (by simp [Frame.uncharged]))

/-! #### `attach` and `detach` -/

private theorem State.Accounts.run_detach (h : s.Accounts) (hs : s.custody.Sound) (ha : s.custody.Apart)
    (hk : s.threads k = .detach x target :: rest) (valid : Item → Bool) (creates : Bool) :
    (Pool.runFrame valid creates s k rest (.detach x target)).Accounts := by
  have hmove := runFrame_moves (d := True) valid creates hk
  have hi : x.item ∈ (Frame.detach x target).touches := by simp [Frame.touches, Frame.pinned]
  have hmentions : ∀ p, target.join = some p → p < s.pools := by simpa [Frame.mentions] using h.head_mentions hk
  simp only [Pool.runFrame] at hmove ⊢
  split at hmove <;> rename_i hlock
  · rename_i o
    obtain ⟨hd, ho⟩ := lock_eq_some hlock
    exact h.exchange (.plain (l := [.detachFrom x o target]) h hs hk hmove rfl rfl rfl rfl rfl rfl rfl
      (by simpa [Frame.mentions] using And.intro (h.known _ _ hd) hmentions) (by simpa [Frame.Fits] using hd)
      (by simpa [Frame.pool] using ho) rfl (by simp [Frame.uncharged]))
  -- the pool of the deleter is gone: the item is not counted by a pool that is alive
  · refine h.exchange (.counted (l := [.attach x target]) h hs ha hk hi hmove rfl rfl rfl rfl rfl rfl
      (by simpa [Frame.mentions] using hmentions) (by simp [Frame.Fits]) (by simp [Frame.pool])
      (by simp [Frame.uncharged]) (by simp [Frame.uncharged]) fun q hq => ?_)
    simp [Frame.uncharged, State.setThread, lock_eq_none hlock hq]

private theorem State.Accounts.run_detachFrom (h : s.Accounts) (hs : s.custody.Sound) (ha : s.custody.Apart)
    (hk : s.threads k = .detachFrom x p target :: rest) (valid : Item → Bool) (creates : Bool) :
    (Pool.runFrame valid creates s k rest (.detachFrom x p target)).Accounts := by
  have hmove := runFrame_moves (d := True) valid creates hk
  have hi : x.item ∈ (Frame.detachFrom x p target).touches := by simp [Frame.touches, Frame.pinned]
  refine h.exchange (.counted (l := [.releasePool p, .attach x target]) h hs ha hk hi hmove rfl rfl rfl rfl rfl rfl
    (by simpa [Frame.mentions] using h.head_mentions hk) (by simp [Frame.Fits])
    (by simpa [Frame.pool] using living_of_head hk rfl) (by simp [Frame.uncharged]) (by simp [Frame.uncharged])
    fun q _ => ?_)
  refine (addAttached_attached (h.head_fits hk) (-1) q).trans ?_
  by_cases hq : s.deleterPool x.item = some q
  · simp [Frame.uncharged, hq, Int.sub_eq_add_neg]
  · simp [Frame.uncharged, hq]

private theorem State.Accounts.run_attach (h : s.Accounts) (hs : s.custody.Sound) (ha : s.custody.Apart)
    (hk : s.threads k = .attach x target :: rest) (valid : Item → Bool) (creates : Bool) :
    (Pool.runFrame valid creates s k rest (.attach x target)).Accounts := by
  have hmove := runFrame_moves (d := True) valid creates hk
  have hi : x.item ∈ (Frame.attach x target).touches := by simp [Frame.touches, Frame.pinned]
  have hiso := isolated_of_touches hs ha hk hi
  have hmentions := h.head_mentions hk
  simp only [Pool.runFrame] at hmove ⊢
  split at hmove <;> rename_i hlock
  · rename_i n
    obtain ⟨htarget, hn'⟩ := lock_eq_some hlock
    have hn : s.Living n := hn'
    refine h.exchange (l := [.attachTo x n]) (i := x.item)
      ⟨hk, hiso, rfl, rfl, rfl, hmove, .inl rfl, fun j hj => update_of_ne hj _ _, fun _ _ => Iff.rfl,
        fun _ => ?_, fun q hq => ?_, ?_, ?_, by simpa [Frame.pool] using hn,
        by simp [Frame.uncharged], by simp [Frame.uncharged], fun q _ => ?_⟩
    · exact ⟨.borrower x.borrow, .inr ⟨k, by simp [State.custody, State.setThread, Frame.pinned]⟩⟩
    · have hq' : target.join = some q := by simpa [State.setThread, State.setDeleterPool] using hq
      exact hmentions q (by simp [Frame.mentions, hq'])
    · simpa [Frame.mentions, htarget] using hmentions
    · simpa [Frame.Fits, State.setThread, State.setDeleterPool] using htarget
    · simp [Frame.uncharged, State.setThread, State.setDeleterPool]
  · refine h.exchange (l := []) (i := x.item)
      ⟨hk, hiso, rfl, rfl, rfl, hmove, .inl rfl, fun j hj => update_of_ne hj _ _, fun _ _ => Iff.rfl,
        fun _ => ?_, fun q hq => ?_, by simp, by simp, by simp,
        by simp [Frame.uncharged], by simp, fun q hq => ?_⟩
    · exact ⟨.borrower x.borrow, .inl List.mem_cons_self⟩
    · have hq' : target.join = some q := by simpa [State.setThread, State.setDeleterPool] using hq
      exact hmentions q (by simp [Frame.mentions, hq'])
    · have hdead : target.join ≠ some q := lock_eq_none hlock hq
      simp [Frame.uncharged, State.setThread, State.setDeleterPool, hdead]

private theorem State.Accounts.run_attachTo (h : s.Accounts) (hs : s.custody.Sound) (ha : s.custody.Apart)
    (hk : s.threads k = .attachTo x p :: rest) (valid : Item → Bool) (creates : Bool) :
    (Pool.runFrame valid creates s k rest (.attachTo x p)).Accounts := by
  have hmove := runFrame_moves (d := True) valid creates hk
  have hi : x.item ∈ (Frame.attachTo x p).touches := by simp [Frame.touches, Frame.pinned]
  refine h.exchange (.counted (l := [.releasePool p]) h hs ha hk hi hmove rfl rfl rfl rfl rfl rfl
    (by simpa [Frame.mentions] using h.head_mentions hk) (by simp [Frame.Fits])
    (by simpa [Frame.pool] using living_of_head hk rfl) (by simp [Frame.uncharged]) (by simp [Frame.uncharged])
    fun q _ => ?_)
  refine (addAttached_attached (h.head_fits hk) 1 q).trans ?_
  simp [Frame.uncharged]

/-! #### The deleter -/

private theorem State.Accounts.run_deleter (h : s.Accounts) (hs : s.custody.Sound) (ha : s.custody.Apart)
    (hk : s.threads k = .deleter i :: rest) (valid : Item → Bool) (creates : Bool) :
    (Pool.runFrame valid creates s k rest (.deleter i)).Accounts := by
  have hmove := runFrame_moves (d := True) valid creates hk
  have hi : i ∈ (Frame.deleter i).touches := by simp [Frame.touches, Frame.held]
  simp only [Pool.runFrame] at hmove ⊢
  split at hmove <;> rename_i hlock
  · rename_i p
    obtain ⟨hd, hp⟩ := lock_eq_some hlock
    exact h.exchange (.plain (l := [.deleterFrom p i]) h hs hk hmove rfl rfl rfl rfl rfl rfl rfl
      (by simpa [Frame.mentions] using h.known _ _ hd) (by simpa [Frame.Fits] using hd)
      (by simpa [Frame.pool] using hp) rfl (by simp [Frame.uncharged]))
  · refine h.exchange (.counted (l := [.delete i]) h hs ha hk hi hmove rfl rfl rfl rfl rfl rfl (by simp [Frame.mentions])
      (by simp [Frame.Fits]) (by simp [Frame.pool]) (by simp [Frame.uncharged]) (by simp [Frame.uncharged])
      fun q hq => ?_)
    simp [Frame.uncharged, State.setThread, State.record, lock_eq_none hlock hq]

private theorem State.Accounts.run_deleterFrom (h : s.Accounts) (hs : s.custody.Sound) (ha : s.custody.Apart)
    (hk : s.threads k = .deleterFrom p i :: rest) (valid : Item → Bool) (creates : Bool) :
    (Pool.runFrame valid creates s k rest (.deleterFrom p i)).Accounts := by
  have hmove := runFrame_moves (d := True) valid creates hk
  have hi : i ∈ (Frame.deleterFrom p i).touches := by simp [Frame.touches, Frame.held]
  refine h.exchange (.counted (l := [.push p i]) h hs ha hk hi hmove rfl rfl rfl rfl rfl rfl
    (by simpa [Frame.mentions] using h.head_mentions hk) (by simp [Frame.Fits])
    (by simpa [Frame.pool] using living_of_head hk rfl) (by simp [Frame.uncharged]) (by simp [Frame.uncharged])
    fun q _ => ?_)
  refine (addAttached_attached (h.head_fits hk) (-1) q).trans ?_
  by_cases hq : s.deleterPool i = some q
  · simp [Frame.uncharged, hq, Int.sub_eq_add_neg]
  · simp [Frame.uncharged, hq]

private theorem State.Accounts.run_push (h : s.Accounts) (hs : s.custody.Sound) (ha : s.custody.Apart)
    (hk : s.threads k = .push p i :: rest) (valid : Item → Bool) (creates : Bool) :
    (Pool.runFrame valid creates s k rest (.push p i)).Accounts := by
  have hmove := runFrame_moves (d := True) valid creates hk
  have hi : i ∈ (Frame.push p i).touches := by simp [Frame.touches, Frame.held]
  have hmentions := h.head_mentions hk
  simp only [Pool.runFrame] at hmove ⊢
  split at hmove <;> rename_i hv
  · rw [if_pos hv]
    have hnone : update s.deleterPool i none i = none := update_self _ _ _
    refine h.exchange (l := [.releasePool p]) (i := i)
      ⟨hk, isolated_of_touches hs ha hk hi, rfl, rfl, rfl, hmove, .inl rfl, fun j hj => update_of_ne hj _ _,
        fun _ _ => Iff.rfl, fun hn => absurd hnone hn, fun q hq => ?_,
        by simpa [Frame.mentions] using hmentions, by simp [Frame.Fits],
        by simpa [Frame.pool] using living_of_head hk rfl,
        by simp [Frame.uncharged], by simp [Frame.uncharged], fun q _ => ?_⟩
    · cases hnone.symm.trans hq
    · simp [Frame.uncharged, State.setThread, State.record, State.setItems, State.setDeleterPool]
  · rw [if_neg hv]
    refine h.exchange (.counted (l := [.releasePool p, .delete i]) h hs ha hk hi hmove rfl rfl rfl rfl rfl rfl
      (by simpa [Frame.mentions] using hmentions) (by simp [Frame.Fits])
      (by simpa [Frame.pool] using living_of_head hk rfl) (by simp [Frame.uncharged]) (by simp [Frame.uncharged])
      fun q _ => ?_)
    simp [Frame.uncharged, State.setThread, State.record]

private theorem State.Accounts.run_delete (h : s.Accounts) (hs : s.custody.Sound) (ha : s.custody.Apart)
    (hk : s.threads k = .delete i :: rest) (valid : Item → Bool) (creates : Bool) :
    (Pool.runFrame valid creates s k rest (.delete i)).Accounts := by
  have hmove := runFrame_moves (d := True) valid creates hk
  have hi : i ∈ (Frame.delete i).touches := by simp [Frame.touches, Frame.held]
  have hnone : update s.deleterPool i none i = none := update_self _ _ _
  refine h.exchange (l := []) (i := i)
    ⟨hk, isolated_of_touches hs ha hk hi, rfl, rfl, rfl, hmove, .inr rfl, fun j hj => update_of_ne hj _ _,
      fun _ _ => Iff.rfl, fun hn => absurd hnone hn, fun q hq => ?_, by simp, by simp, by simp,
      by simp [Frame.uncharged], by simp, fun q _ => ?_⟩
  · cases hnone.symm.trans hq
  · simp [Pool.runFrame, Frame.uncharged, State.setThread, State.record, State.setDeleterPool]

/-! #### The end of a pool -/

private theorem State.Accounts.run_eraseInvalid (h : s.Accounts) (hs : s.custody.Sound)
    (hk : s.threads k = .eraseInvalid p :: rest) (valid : Item → Bool) (creates : Bool) :
    (Pool.runFrame valid creates s k rest (.eraseInvalid p)).Accounts := by
  have hmove := runFrame_moves (d := True) valid creates hk
  exact h.exchange (.plain (l := [.destroyItems ((s.items p).filter (!valid ·))]) h hs hk hmove rfl rfl rfl rfl rfl
    rfl rfl (by simp [Frame.mentions]) (by simp [Frame.Fits]) (by simp [Frame.pool]) rfl (by simp [Frame.uncharged]))

private theorem State.Accounts.run_releasePool (h : s.Accounts) (hs : s.custody.Sound)
    (hk : s.threads k = .releasePool p :: rest) (valid : Item → Bool) (creates : Bool) :
    (Pool.runFrame valid creates s k rest (.releasePool p)).Accounts := by
  have hmove := runFrame_moves (d := True) valid creates hk
  simp only [Pool.runFrame] at hmove ⊢
  split at hmove <;> rename_i hp
  · rw [if_pos hp]
    exact h.exchange (.plain (l := []) h hs hk hmove rfl rfl rfl rfl rfl rfl rfl (by simp) (by simp)
      (by simp) rfl (by simp))
  · rw [if_neg hp]
    rw [setItems_setThread, setThread_setThread] at hmove ⊢
    exact h.exchange (.plain (l := [.destroyItems (s.items p)]) h hs hk hmove rfl rfl rfl rfl rfl rfl rfl
      (by simp [Frame.mentions]) (by simp [Frame.Fits]) (by simp [Frame.pool]) rfl (by simp [Frame.uncharged]))

private theorem State.Accounts.run_destroyItems (h : s.Accounts) (hs : s.custody.Sound) {is : List Item}
    (hk : s.threads k = .destroyItems is :: rest) (valid : Item → Bool) (creates : Bool) :
    (Pool.runFrame valid creates s k rest (.destroyItems is)).Accounts := by
  have hmove := runFrame_moves (d := True) valid creates hk
  cases is with
  | nil =>
    exact h.exchange (.plain (l := []) h hs hk hmove rfl rfl rfl rfl rfl rfl rfl (by simp) (by simp)
      (by simp) rfl (by simp))
  | cons i is =>
    exact h.exchange (.plain (l := [.deleter i, .destroyItems is]) h hs hk hmove rfl rfl rfl rfl rfl rfl rfl
      (by simp [Frame.mentions]) (by simp [Frame.Fits]) (by simp [Frame.pool]) rfl (by simp [Frame.uncharged]))

/-- A thread does the first thing on its stack. -/
theorem State.Accounts.runFrame (h : s.Accounts) (hs : s.custody.Sound) (ha : s.custody.Apart) (hu : s.Unattached)
    (hk : s.threads k = f :: rest) (valid : Item → Bool) (creates : Bool) :
    (Pool.runFrame valid creates s k rest f).Accounts := by
  cases f with
  | create p => exact h.run_create hs hk valid creates
  | lend p i => exact h.run_lend hs ha hk valid creates
  | pull p => exact h.run_pull hs hu hk valid creates
  | pulled p i => exact h.run_pulled hs ha hk valid creates
  | eraseInvalid p => exact h.run_eraseInvalid hs hk valid creates
  | detach x target => exact h.run_detach hs ha hk valid creates
  | detachFrom x o target => exact h.run_detachFrom hs ha hk valid creates
  | attach x target => exact h.run_attach hs ha hk valid creates
  | attachTo x n => exact h.run_attachTo hs ha hk valid creates
  | deleter i => exact h.run_deleter hs ha hk valid creates
  | deleterFrom p i => exact h.run_deleterFrom hs ha hk valid creates
  | push p i => exact h.run_push hs ha hk valid creates
  | delete i => exact h.run_delete hs ha hk valid creates
  | releasePool p => exact h.run_releasePool hs hk valid creates
  | destroyItems is => exact h.run_destroyItems hs hk valid creates

end RunFrame

end Exchange

/-! ### The steps of the program -/

section Program

variable [Fintype Thread] [DecidableEq Thread] {s s' : State Thread}

/-- A frame that begins a call has counted nothing yet. -/
structure Frame.Fresh (s : State Thread) (g : Frame) : Prop where
  uncharged : g.uncharged = []
  mentions : ∀ p ∈ g.mentions, p < s.pools
  fits : ∀ d, g.Fits d
  living : ∀ p, g.pool = some p → s.Living p

omit [Fintype Thread] in
/-- Calls may begin, but nothing happens to the pools and the deleters. -/
theorem State.Accounts.unchanged (h : s.Accounts) (hm : Move True s.custody none s'.custody)
    (hmem : ∀ k g, g ∈ s'.threads k → g ∈ s.threads k ∨ g.Fresh s)
    (hkept : ∀ k g, g ∈ s.threads k → g ∈ s'.threads k) (pools : s'.pools = s.pools)
    (owners : ∀ p, 0 < s'.owners p → 0 < s.owners p) (deleterPool : s'.deleterPool = s.deleterPool)
    (created : s'.created = s.created) (attached : s'.attached = s.attached) : s'.Accounts := by
  have huncharged (i : Item) : s'.Uncharged i ↔ s.Uncharged i := by
    constructor
    · rintro ⟨k', g, hg, hi⟩
      rcases hmem k' g hg with hg | hg
      · exact ⟨k', g, hg, hi⟩
      · simp [hg.uncharged] at hi
    · rintro ⟨k', g, hg, hi⟩
      exact ⟨k', g, hkept k' g hg, hi⟩
  have hcharged (p : PoolId) : s'.charged p = s.charged p := by
    ext i
    rw [mem_charged, mem_charged, created, deleterPool, huncharged]
  refine ⟨fun i hi => ?_, fun i p hp => ?_, fun k' g hg p hp => ?_, fun p hp => ?_, fun k' g hg => ?_,
    fun p hp => ?_⟩
  · exact hm.owned (by simp) (h.owned i (deleterPool ▸ hi))
  · rw [pools]
    exact h.known i p (deleterPool ▸ hp)
  · rw [pools]
    exact (hmem k' g hg).elim (fun hg => h.mentions k' g hg p hp) fun hg => hg.mentions p hp
  · rw [pools]
    exact h.owners p (owners p hp)
  · rw [deleterPool]
    exact (hmem k' g hg).elim (h.fits k' g) fun hg => hg.fits _
  · have hliving : s.Living p := by
      rcases hp with hp | ⟨k', g, hg, hp⟩
      · exact .inl (owners p hp)
      · exact (hmem k' g hg).elim (fun hg => .inr ⟨k', g, hg, hp⟩) fun hg => hg.living p hp
    rw [attached, hcharged]
    exact h.attached p hliving

omit [Fintype Thread] in
/-- A call begins. -/
theorem State.Accounts.call (h : s.Accounts) {k : Thread} {l : List Frame} (hm : Move True s.custody none s'.custody)
    (hk : s.threads k = []) (threads : s'.threads = update s.threads k l) (pools : s'.pools = s.pools)
    (owners : ∀ p, 0 < s'.owners p → 0 < s.owners p) (deleterPool : s'.deleterPool = s.deleterPool)
    (created : s'.created = s.created) (attached : s'.attached = s.attached) (fresh : ∀ g ∈ l, g.Fresh s) :
    s'.Accounts := by
  obtain ⟨hmem, hkept⟩ := threads_of_call hk threads
  exact h.unchanged hm (fun k' g hg => (hmem k' g hg).imp_right (fresh g)) hkept pools owners deleterPool created attached

omit [Fintype Thread] [DecidableEq Thread] in
/-- A new pool has no items, and none refers to it. -/
theorem State.Accounts.newPool (h : s.Accounts) : State.Accounts { s with
    pools := s.pools + 1
    owners := update s.owners s.pools 1
    attached := update s.attached s.pools 0 } := by
  refine ⟨h.owned, fun i p hp => (h.known i p hp).trans (Nat.lt_succ_self _),
    fun k g hg p hp => (h.mentions k g hg p hp).trans (Nat.lt_succ_self _), fun p hp => ?_, h.fits, fun p hp => ?_⟩
  · by_cases hnew : p = s.pools
    · exact hnew ▸ Nat.lt_succ_self _
    · have hp : 0 < update s.owners s.pools 1 p := hp
      rw [update_of_ne hnew] at hp
      exact (h.owners p hp).trans (Nat.lt_succ_self _)
  · by_cases hnew : p = s.pools
    · subst hnew
      have hnone : State.charged { s with
          pools := s.pools + 1
          owners := update s.owners s.pools 1
          attached := update s.attached s.pools 0 } s.pools = ∅ := by
        refine Finset.eq_empty_of_forall_notMem fun i hi => ?_
        exact lt_irrefl _ (h.known i _ (mem_charged.1 hi).2.1)
      rw [hnone]
      simp
    · have hliving : s.Living p := by
        refine hp.imp_left fun hp => ?_
        have hp : 0 < update s.owners s.pools 1 p := hp
        rwa [update_of_ne hnew] at hp
      show update s.attached s.pools 0 p = _
      rw [update_of_ne hnew]
      exact h.attached p hliving

omit [Fintype Thread] in
theorem State.Accounts.callPool (h : s.Accounts) {k : Thread} {p : PoolId} {f : Frame} (hk : s.threads k = [])
    (hp : 0 < s.owners p) (hheld : f.held = []) (hpinned : f.pinned = none) (hf : f.uncharged = [])
    (hfits : ∀ d, f.Fits d) (hpool : f.pool = none) (hmentions : f.mentions = [p]) :
    (s.setThread k [f, .releasePool p]).Accounts := by
  have hknown := h.owners p hp
  refine h.call (k := k) (callPool_moves hk hheld hpinned) hk rfl rfl (fun _ => id) rfl rfl rfl fun g hg => ?_
  rcases List.mem_cons.1 hg with rfl | hg
  · exact ⟨hf, by simpa [hmentions] using hknown, hfits, by simp [hpool]⟩
  · obtain rfl := List.mem_singleton.1 hg
    exact ⟨rfl, by simpa [Frame.mentions] using hknown, fun _ => trivial, by simpa [Frame.pool] using .inl hp⟩

omit [Fintype Thread] in
theorem State.Accounts.callHandle (h : s.Accounts) {k : Thread} {x : Handle} {target : Option (Option PoolId)}
    (hk : s.threads k = []) (hx : x ∈ s.handles) (hunpinned : ¬ s.Pinned x.item)
    (htarget : ∀ p ∈ target.join, p < s.pools) :
    State.Accounts ({ s with handles := s.handles.erase x }.setThread k [.detach x target]) := by
  refine h.call (k := k) (callHandle_moves hk hx fun _ => hunpinned) hk rfl rfl (fun _ => id) rfl rfl rfl fun g hg => ?_
  obtain rfl := List.mem_singleton.1 hg
  exact ⟨rfl, by simpa [Frame.mentions] using htarget, fun _ => trivial, by simp [Frame.pool]⟩

/-- The books are in order after every step. -/
theorem State.Accounts.step (h : s.Accounts) (hs : s.custody.Sound) (hp : s.custody.Apart) (hu : s.Unattached)
    {a : Action Thread} (ha : Orderly s a) (hstep : Pool.step s a = some s') : s'.Accounts := by
  -- the owners of a pool come from those that it has
  have howned {p : PoolId} {n : Nat} (hp : 0 < s.owners p) (q : PoolId) (hq : 0 < update s.owners p n q) :
      0 < s.owners q := by
    by_cases hqp : q = p
    · exact hqp ▸ hp
    · rwa [update_of_ne hqp] at hq
  cases step_effect hstep with
  | newPool => exact h.newPool
  | copyPool hp => exact h.unchanged (.stay _) (fun _ _ => .inl) (fun _ _ => id) rfl (howned hp) rfl rfl rfl
  | @dropPool k p hk hp =>
    have hm := call_moves (s := { s with owners := update s.owners p (s.owners p - 1) }) (d := True) hk
      (l := [.releasePool p]) rfl rfl
    refine h.call (k := k) hm hk rfl rfl (howned hp) rfl rfl rfl fun g hg => ?_
    obtain rfl := List.mem_singleton.1 hg
    exact ⟨rfl, by simpa [Frame.mentions] using h.owners p hp, fun _ => trivial, by simpa [Frame.pool] using .inl hp⟩
  | create hk hp | get hk hp | eraseInvalid hk hp => exact h.callPool hk hp rfl rfl rfl (fun _ => trivial) rfl rfl
  | copyHandle hx => exact h.unchanged (.copy _ hx) (fun _ _ => .inl) (fun _ _ => id) rfl (fun _ => id) rfl rfl rfl
  | @dropHandle k x hk hx hmore =>
    exact h.unchanged (.drop _ x (hmore.imp_left State.Pinned.custody)) (fun _ _ => .inl) (fun _ _ => id) rfl
      (fun _ => id) rfl rfl rfl
  | @release k x hk hx hlast =>
    refine h.call (k := k) (release_moves hk hx hlast) hk rfl rfl (fun _ => id) rfl rfl rfl fun g hg => ?_
    obtain rfl := List.mem_singleton.1 hg
    exact ⟨rfl, by simp [Frame.mentions], fun _ => trivial, by simp [Frame.pool]⟩
  | attach hk hx hp => exact h.callHandle hk hx ha (by simpa using hp)
  | detach hk hx => exact h.callHandle hk hx ha (by simp)
  | run hk valid creates => exact h.runFrame hs hp hu hk valid creates

end Program

end TaoPQ.Pool
