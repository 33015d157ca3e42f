import TaoPQ.Pool
import Mathlib.Data.List.Nodup

/-!
# Who owns an item

The abstract view of the pools: an item is with a thread that works on it, in a pool, or with a borrower, who may have
several handles to it (`Custody`).  Every step of `TaoPQ.Pool` is one of a few moves (`step_moves`), and they keep each
item with at most one owner (`Sound.move`).  At most one call of `attach` or `detach` works on an item (`Apart.move`)
if no such call is made for an item while another one is in progress (`Orderly`).
-/

namespace TaoPQ.Pool

variable {Thread : Type}

/-- The items that a thread owns by a frame. -/
def Frame.held : Frame → List Item
  | .lend _ i => [i]
  | .pulled _ i => [i]
  | .deleter i => [i]
  | .deleterFrom _ i => [i]
  | .push _ i => [i]
  | .delete i => [i]
  | .destroyItems is => is
  | _ => []

/-- The item that a frame deletes. -/
def Frame.deleted : Frame → Option Item
  | .delete i => some i
  | _ => none

/-- Where the items are, and how many there are. -/
structure Custody (Thread : Type) where
  held : Thread → List Item
  pinned : Thread → List Handle
  items : PoolId → List Item
  handles : List Handle
  created : Nat

def State.custody (s : State Thread) : Custody Thread where
  held := fun k => (s.threads k).flatMap Frame.held
  pinned := fun k => (s.threads k).filterMap Frame.pinned
  items := s.items
  handles := s.handles
  created := s.created

/-- Who an item is with. -/
inductive Owner (Thread : Type) where
  | thread (k : Thread)
  | pool (p : PoolId)
  | borrower (b : Nat)

namespace Custody

variable {c c' : Custody Thread}

/-- The borrower has a handle, also when a call of `attach` or `detach` works on it. -/
def Has (c : Custody Thread) : Owner Thread → Item → Prop
  | .thread k, i => i ∈ c.held k
  | .pool p, i => i ∈ c.items p
  | .borrower b, i => ⟨b, i⟩ ∈ c.handles ∨ ∃ k, ⟨b, i⟩ ∈ c.pinned k

/-- Somebody has borrowed the item. -/
def Borrowed (c : Custody Thread) (i : Item) : Prop := ∃ b, c.Has (.borrower b) i

/-- No item has two owners, or is twice with one of them. -/
structure Sound (c : Custody Thread) : Prop where
  exclusive : ∀ o o' i, c.Has o i → c.Has o' i → o = o'
  held : ∀ k, (c.held k).Nodup
  items : ∀ p, (c.items p).Nodup
  created : ∀ o i, c.Has o i → i < c.created

/-- At most one call of `attach` or `detach` works on an item. -/
structure Apart (c : Custody Thread) : Prop where
  pinned : ∀ k, ((c.pinned k).map Handle.item).Nodup
  pins : ∀ k k' h h', h ∈ c.pinned k → h' ∈ c.pinned k' → h.item = h'.item → k = k'

open Function

/-- What a step can do.  The index is the item that is deleted; `d` says that calls of `attach` and `detach` are
orderly. -/
inductive Move [DecidableEq Thread] (d : Prop) : Custody Thread → Option Item → Custody Thread → Prop where
  | stay (c : Custody Thread) : Move d c none c
  | make (c : Custody Thread) (k : Thread) :
      Move d c none { c with held := update c.held k (c.created :: c.held k), created := c.created + 1 }
  | lend (c : Custody Thread) (k : Thread) (b : Nat) {i : Item} {is : List Item} (h : c.held k = i :: is) :
      Move d c none { c with held := update c.held k is, handles := ⟨b, i⟩ :: c.handles }
  | store (c : Custody Thread) (k : Thread) (p : PoolId) {i : Item} {is : List Item} (h : c.held k = i :: is) :
      Move d c none { c with held := update c.held k is, items := update c.items p (c.items p ++ [i]) }
  | take (c : Custody Thread) (k : Thread) (p : PoolId) {t u : List Item}
      (h : (c.items p).Perm (t ++ u)) :
      Move d c none { c with held := update c.held k (t ++ c.held k), items := update c.items p u }
  | delete (c : Custody Thread) (k : Thread) {i : Item} {is : List Item} (h : c.held k = i :: is) :
      Move d c (some i) { c with held := update c.held k is }
  | copy (c : Custody Thread) {x : Handle} (hx : x ∈ c.handles) : Move d c none { c with handles := x :: c.handles }
  | drop (c : Custody Thread) (x : Handle)
      (another : (∃ k, ∃ y ∈ c.pinned k, y.item = x.item) ∨ ∃ y ∈ c.handles.erase x, y.item = x.item) :
      Move d c none { c with handles := c.handles.erase x }
  | release (c : Custody Thread) (k : Thread) {x : Handle} (hx : x ∈ c.handles)
      (last : ∀ y ∈ c.handles.erase x, y.item ≠ x.item) (unpinned : ∀ k, ∀ y ∈ c.pinned k, y.item ≠ x.item) :
      Move d c none { c with handles := c.handles.erase x, held := update c.held k (x.item :: c.held k) }
  | pin (c : Custody Thread) (k : Thread) {x : Handle} (hx : x ∈ c.handles)
      (unpinned : d → ∀ k, ∀ y ∈ c.pinned k, y.item ≠ x.item) :
      Move d c none { c with handles := c.handles.erase x, pinned := update c.pinned k (x :: c.pinned k) }
  | unpin (c : Custody Thread) (k : Thread) {x : Handle} {xs : List Handle} (hp : c.pinned k = x :: xs) :
      Move d c none { c with pinned := update c.pinned k xs, handles := x :: c.handles }

/-! ### The moves keep the owners apart -/

/-- The items in `moved` go from one owner to another. -/
theorem exclusive_transfer (h : c.Sound) (moved : Item → Prop) {o₀ o₁ : Owner Thread}
    (hfrom : ∀ i, moved i → ∀ o, c.Has o i → o = o₀)
    (hmove : ∀ o i, c'.Has o i → c.Has o i ∧ ¬ (moved i ∧ o = o₀) ∨ moved i ∧ o = o₁) :
    ∀ o o' i, c'.Has o i → c'.Has o' i → o = o' := by
  intro o o' i ho ho'
  rcases hmove o i ho with ⟨ho, hn⟩ | ⟨hi, rfl⟩ <;> rcases hmove o' i ho' with ⟨ho', hn'⟩ | ⟨hi', rfl⟩
  · exact h.exclusive o o' i ho ho'
  · exact absurd ⟨hi', hfrom i hi' o ho⟩ hn
  · exact absurd ⟨hi, hfrom i hi o' ho'⟩ hn'
  · rfl

theorem exclusive_fewer (h : c.Sound) (hsub : ∀ o i, c'.Has o i → c.Has o i) :
    ∀ o o' i, c'.Has o i → c'.Has o' i → o = o' := fun o o' i ho ho' => h.exclusive o o' i (hsub o i ho) (hsub o' i ho')

theorem has_thread_update [DecidableEq Thread] {k : Thread} {is : List Item} {held : Thread → List Item} {k' : Thread}
    {i : Item} : i ∈ update held k is k' ↔ k' = k ∧ i ∈ is ∨ k' ≠ k ∧ i ∈ held k' := by
  by_cases hk : k' = k
  · subst hk
    simp
  · simp [hk]

/-- A move as it shows in who has what. -/
private theorem Sound.moved (h : c.Sound) (moved : Item → Prop) (o₀ o₁ : Owner Thread)
    (hfrom : ∀ i, moved i → ∀ o, c.Has o i → o = o₀) (hcreated : c.created ≤ c'.created)
    (hnew : ∀ i, moved i → i < c'.created)
    (hmove : ∀ o i, c'.Has o i → c.Has o i ∧ ¬ (moved i ∧ o = o₀) ∨ moved i ∧ o = o₁)
    (hheld : ∀ k, (c'.held k).Nodup) (hitems : ∀ p, (c'.items p).Nodup) : c'.Sound where
  exclusive := exclusive_transfer h moved hfrom hmove
  held := hheld
  items := hitems
  created o i ho := by
    rcases hmove o i ho with ⟨ho, _⟩ | ⟨hi, _⟩
    · exact (h.created o i ho).trans_le hcreated
    · exact hnew i hi

theorem Sound.copy (h : c.Sound) {x : Handle} (hx : x ∈ c.handles) : Sound { c with handles := x :: c.handles } := by
  have hsub (o : Owner Thread) (i : Item) (ho : ({ c with handles := x :: c.handles } : Custody Thread).Has o i) :
      c.Has o i := by
    cases o with
    | thread k => exact ho
    | pool p => exact ho
    | borrower b =>
      refine ho.imp_left fun ho => ?_
      rcases List.mem_cons.1 ho with rfl | ho
      · exact hx
      · exact ho
  exact ⟨exclusive_fewer h hsub, h.held, h.items, fun o i ho => h.created o i (hsub o i ho)⟩

theorem Sound.drop (h : c.Sound) (x : Handle) : Sound { c with handles := c.handles.erase x } := by
  have hsub (o : Owner Thread) (i : Item) (ho : ({ c with handles := c.handles.erase x } : Custody Thread).Has o i) :
      c.Has o i := by
    cases o with
    | thread k => exact ho
    | pool p => exact ho
    | borrower b => exact ho.imp_left List.mem_of_mem_erase
  exact ⟨exclusive_fewer h hsub, h.held, h.items, fun o i ho => h.created o i (hsub o i ho)⟩

variable [DecidableEq Thread] {k : Thread} {i : Item} {is : List Item}

theorem Sound.make (h : c.Sound) (k : Thread) :
    Sound { c with held := update c.held k (c.created :: c.held k), created := c.created + 1 } := by
  have hno (o : Owner Thread) : ¬ c.Has o c.created := fun ho => lt_irrefl _ (h.created o _ ho)
  refine h.moved (· = c.created) (.thread k) (.thread k) (fun i hi o ho => absurd (hi ▸ ho) (hno o)) (Nat.le_succ _)
    (fun i hi => hi ▸ Nat.lt_succ_self _) (fun o i ho => ?_) (fun k' => ?_) h.items
  · cases o with
    | thread k' =>
      rcases has_thread_update.1 ho with ⟨rfl, ho⟩ | ⟨hk, ho⟩
      · rcases List.mem_cons.1 ho with hi | ho
        · exact .inr ⟨hi, rfl⟩
        · exact .inl ⟨ho, fun hi => hno _ (hi.1 ▸ ho : c.Has (.thread k') c.created)⟩
      · exact .inl ⟨ho, fun hi => hno (.thread k') (hi.1 ▸ ho)⟩
    | pool p => exact .inl ⟨ho, by simp⟩
    | borrower b => exact .inl ⟨ho, by simp⟩
  · by_cases hk : k' = k
    · subst hk
      simp only [update_self]
      exact List.nodup_cons.2 ⟨hno (.thread k'), h.held k'⟩
    · simp only [update_of_ne hk]
      exact h.held k'

/-- A thread gives away the item of its next frame. -/
private theorem Sound.give (h : c.Sound) (hk : c.held k = i :: is) {k' : Thread} {j : Item}
    (hj : j ∈ update c.held k is k') : c.Has (.thread k') j ∧ ¬ (j = i ∧ Owner.thread k' = .thread k) := by
  have hnodup := hk ▸ h.held k
  rcases has_thread_update.1 hj with ⟨rfl, hj'⟩ | ⟨hne, hj'⟩
  · refine ⟨?_, fun hi => (List.nodup_cons.1 hnodup).1 (hi.1 ▸ hj')⟩
    show j ∈ c.held k'
    rw [hk]
    exact List.mem_cons_of_mem _ hj'
  · exact ⟨hj', fun hi => hne (Owner.thread.inj hi.2)⟩

private theorem Sound.give_nodup (h : c.Sound) (hk : c.held k = i :: is) (k' : Thread) :
    (update c.held k is k').Nodup := by
  by_cases hne : k' = k
  · subst hne
    rw [update_self]
    exact (List.nodup_cons.1 (hk ▸ h.held k')).2
  · rw [update_of_ne hne]
    exact h.held k'

omit [DecidableEq Thread] in
private theorem Sound.owner (h : c.Sound) (hk : c.held k = i :: is) (j : Item) (hj : j = i) (o : Owner Thread)
    (ho : c.Has o j) : o = .thread k := by
  subst hj
  exact h.exclusive o _ j ho (by rw [Has, hk]; exact List.mem_cons_self)

omit [DecidableEq Thread] in
private theorem Sound.lt_created (h : c.Sound) (hk : c.held k = i :: is) (j : Item) (hj : j = i) : j < c.created := by
  subst hj
  exact h.created (.thread k) j (by rw [Has, hk]; exact List.mem_cons_self)

theorem Sound.lend (h : c.Sound) (hk : c.held k = i :: is) (b : Nat) :
    Sound { c with held := update c.held k is, handles := ⟨b, i⟩ :: c.handles } := by
  refine h.moved (· = i) (.thread k) (.borrower b) (h.owner hk) le_rfl (h.lt_created hk)
    (fun o j ho => ?_) (h.give_nodup hk) h.items
  cases o with
  | thread k' => exact .inl (h.give hk ho)
  | pool p => exact .inl ⟨ho, by simp⟩
  | borrower b' =>
    rcases ho with ho | ho
    · rcases List.mem_cons.1 ho with heq | ho
      · obtain ⟨rfl, rfl⟩ := Handle.mk.inj heq
        exact .inr ⟨rfl, rfl⟩
      · exact .inl ⟨.inl ho, by simp⟩
    · exact .inl ⟨.inr ho, by simp⟩

theorem Sound.delete (h : c.Sound) (hk : c.held k = i :: is) : Sound { c with held := update c.held k is } := by
  refine h.moved (· = i) (.thread k) (.thread k) (h.owner hk) le_rfl (h.lt_created hk)
    (fun o j ho => ?_) (h.give_nodup hk) h.items
  cases o with
  | thread k' => exact .inl (h.give hk ho)
  | pool p => exact .inl ⟨ho, by simp⟩
  | borrower b => exact .inl ⟨ho, by simp⟩

theorem Sound.store (h : c.Sound) (hk : c.held k = i :: is) (p : PoolId) :
    Sound { c with held := update c.held k is, items := update c.items p (c.items p ++ [i]) } := by
  refine h.moved (· = i) (.thread k) (.pool p) (h.owner hk) le_rfl (h.lt_created hk)
    (fun o j ho => ?_) (h.give_nodup hk) (fun q => ?_)
  · cases o with
    | thread k' => exact .inl (h.give hk ho)
    | pool q =>
      by_cases hq : q = p
      · subst hq
        rcases List.mem_append.1 (by simpa [Has] using ho : j ∈ c.items q ++ [i]) with ho | ho
        · exact .inl ⟨ho, by simp⟩
        · exact .inr ⟨List.mem_singleton.1 ho, rfl⟩
      · exact .inl ⟨by simpa [Has, hq] using ho, by simp⟩
    | borrower b => exact .inl ⟨ho, by simp⟩
  · by_cases hq : q = p
    · subst hq
      have hnot : i ∉ c.items q := fun hi => by simpa using h.owner hk i rfl (.pool q) hi
      simp only [update_self]
      exact List.nodup_append.2 ⟨h.items q, List.nodup_singleton i, fun a ha b hb heq =>
        hnot (List.mem_singleton.1 hb ▸ heq ▸ ha)⟩
    · simp only [update_of_ne hq]
      exact h.items q

theorem Sound.take (h : c.Sound) (k : Thread) (p : PoolId) {t u : List Item}
    (hp : (c.items p).Perm (t ++ u)) :
    Sound { c with held := update c.held k (t ++ c.held k), items := update c.items p u } := by
  have hin {j : Item} (hj : j ∈ t) : c.Has (.pool p) j := hp.mem_iff.2 (List.mem_append_left _ hj)
  have hnodup : (t ++ u).Nodup := hp.nodup_iff.1 (h.items p)
  refine h.moved (· ∈ t) (.pool p) (.thread k) (fun j hj o ho => h.exclusive o _ j ho (hin hj)) le_rfl
    (fun j hj => h.created _ j (hin hj)) (fun o j ho => ?_) (fun k' => ?_) (fun q => ?_)
  · cases o with
    | thread k' =>
      rcases has_thread_update.1 ho with ⟨rfl, ho⟩ | ⟨_, ho⟩
      · exact (List.mem_append.1 ho).symm.imp (fun ho => ⟨ho, by simp⟩) fun ho => ⟨ho, rfl⟩
      · exact .inl ⟨ho, by simp⟩
    | pool q =>
      by_cases hq : q = p
      · subst hq
        have hu : j ∈ u := by simpa [Has] using ho
        refine .inl ⟨hp.mem_iff.2 (List.mem_append_right _ hu), fun hj => ?_⟩
        exact (List.nodup_append.1 hnodup).2.2 j hj.1 j hu rfl
      · exact .inl ⟨by simpa [Has, hq] using ho, by simp [hq]⟩
    | borrower b => exact .inl ⟨ho, by simp⟩
  · by_cases hk : k' = k
    · subst hk
      simp only [update_self]
      refine List.nodup_append.2 ⟨(List.nodup_append.1 hnodup).1, h.held k', fun a ha b hb heq => ?_⟩
      have := h.exclusive _ _ a (hin ha) (heq ▸ hb : c.Has (.thread k') a)
      cases this
    · simp only [update_of_ne hk]
      exact h.held k'
  · by_cases hq : q = p
    · subst hq
      simp only [update_self]
      exact (List.nodup_append.1 hnodup).2.1
    · simp only [update_of_ne hq]
      exact h.items q

theorem Sound.release (h : c.Sound) (k : Thread) {x : Handle} (hx : x ∈ c.handles)
    (last : ∀ y ∈ c.handles.erase x, y.item ≠ x.item) (unpinned : ∀ k, ∀ y ∈ c.pinned k, y.item ≠ x.item) :
    Sound { c with handles := c.handles.erase x, held := update c.held k (x.item :: c.held k) } := by
  have hhas : c.Has (.borrower x.borrow) x.item := .inl hx
  refine h.moved (· = x.item) (.borrower x.borrow) (.thread k)
    (fun j hj o ho => h.exclusive o _ j ho (hj ▸ hhas)) le_rfl (fun j hj => by rw [hj]; exact h.created _ _ hhas)
    (fun o j ho => ?_) (fun k' => ?_) h.items
  · cases o with
    | thread k' =>
      rcases has_thread_update.1 ho with ⟨rfl, ho⟩ | ⟨_, ho⟩
      · rcases List.mem_cons.1 ho with hj | ho
        · exact .inr ⟨hj, rfl⟩
        · exact .inl ⟨ho, by simp⟩
      · exact .inl ⟨ho, by simp⟩
    | pool p => exact .inl ⟨ho, by simp⟩
    | borrower b =>
      rcases ho with ho | ⟨k', ho⟩
      · exact .inl ⟨.inl (List.mem_of_mem_erase ho), fun hj => last _ ho hj.1⟩
      · exact .inl ⟨.inr ⟨k', ho⟩, fun hj => unpinned k' _ ho hj.1⟩
  · by_cases hk : k' = k
    · subst hk
      have hnot : x.item ∉ c.held k' := fun hi => by
        have := h.exclusive (.thread k') _ _ hi hhas
        cases this
      simp only [update_self]
      exact List.nodup_cons.2 ⟨hnot, h.held k'⟩
    · simp only [update_of_ne hk]
      exact h.held k'

theorem mem_pin {k' : Thread} {x y : Handle} (hy : y ∈ update c.pinned k (x :: c.pinned k) k') :
    k' = k ∧ y = x ∨ y ∈ c.pinned k' := by
  by_cases hk : k' = k
  · subst hk
    rw [update_self] at hy
    exact (List.mem_cons.1 hy).imp_left fun hy => ⟨rfl, hy⟩
  · rw [update_of_ne hk] at hy
    exact .inr hy

theorem mem_unpin {k' : Thread} {x y : Handle} {xs : List Handle} (hp : c.pinned k = x :: xs)
    (hy : y ∈ update c.pinned k xs k') : y ∈ c.pinned k' := by
  by_cases hk : k' = k
  · subst hk
    rw [update_self] at hy
    rw [hp]
    exact List.mem_cons_of_mem _ hy
  · rwa [update_of_ne hk] at hy

theorem Sound.pin (h : c.Sound) (k : Thread) {x : Handle} (hx : x ∈ c.handles) :
    Sound { c with handles := c.handles.erase x, pinned := update c.pinned k (x :: c.pinned k) } := by
  have hsub (o : Owner Thread) (i : Item) (ho : ({ c with
      handles := c.handles.erase x, pinned := update c.pinned k (x :: c.pinned k) } : Custody Thread).Has o i) :
      c.Has o i := by
    cases o with
    | thread k => exact ho
    | pool p => exact ho
    | borrower b =>
      rcases ho with ho | ⟨k', ho⟩
      · exact .inl (List.mem_of_mem_erase ho)
      · rcases mem_pin ho with ⟨_, rfl⟩ | ho
        · exact .inl hx
        · exact .inr ⟨k', ho⟩
  exact ⟨exclusive_fewer h hsub, h.held, h.items, fun o i ho => h.created o i (hsub o i ho)⟩

theorem Sound.unpin (h : c.Sound) {x : Handle} {xs : List Handle} (hp : c.pinned k = x :: xs) :
    Sound { c with pinned := update c.pinned k xs, handles := x :: c.handles } := by
  have hsub (o : Owner Thread) (i : Item) (ho : ({ c with
      pinned := update c.pinned k xs, handles := x :: c.handles } : Custody Thread).Has o i) : c.Has o i := by
    cases o with
    | thread k => exact ho
    | pool p => exact ho
    | borrower b =>
      rcases ho with ho | ⟨k', ho⟩
      · rcases List.mem_cons.1 ho with heq | ho
        · exact .inr ⟨k, by rw [hp, ← heq]; exact List.mem_cons_self⟩
        · exact .inl ho
      · exact .inr ⟨k', mem_unpin hp ho⟩
  exact ⟨exclusive_fewer h hsub, h.held, h.items, fun o i ho => h.created o i (hsub o i ho)⟩

theorem Apart.pin (h : c.Apart) (k : Thread) {x : Handle} (unpinned : ∀ k, ∀ y ∈ c.pinned k, y.item ≠ x.item) :
    Apart { c with handles := c.handles.erase x, pinned := update c.pinned k (x :: c.pinned k) } := by
  refine ⟨fun k' => ?_, fun k₁ k₂ y₁ y₂ h₁ h₂ heq => ?_⟩
  · by_cases hk : k' = k
    · subst hk
      simp only [update_self, List.map_cons]
      refine List.nodup_cons.2 ⟨fun hi => ?_, h.pinned k'⟩
      obtain ⟨y, hy, heq⟩ := List.mem_map.1 hi
      exact unpinned k' y hy heq
    · simp only [update_of_ne hk]
      exact h.pinned k'
  · rcases mem_pin h₁ with ⟨hk₁, hy₁⟩ | hold₁ <;> rcases mem_pin h₂ with ⟨hk₂, hy₂⟩ | hold₂
    · exact hk₁.trans hk₂.symm
    · exact absurd (hy₁ ▸ heq).symm (unpinned k₂ y₂ hold₂)
    · exact absurd (hy₂ ▸ heq) (unpinned k₁ y₁ hold₁)
    · exact h.pins k₁ k₂ y₁ y₂ hold₁ hold₂ heq

theorem Apart.unpin (h : c.Apart) {x : Handle} {xs : List Handle} (hp : c.pinned k = x :: xs) :
    Apart { c with pinned := update c.pinned k xs, handles := x :: c.handles } := by
  refine ⟨fun k' => ?_, fun k₁ k₂ y₁ y₂ h₁ h₂ heq => h.pins k₁ k₂ y₁ y₂ (mem_unpin hp h₁) (mem_unpin hp h₂) heq⟩
  by_cases hk : k' = k
  · subst hk
    have hnodup := h.pinned k'
    simp only [update_self]
    rw [hp, List.map_cons] at hnodup
    exact (List.nodup_cons.1 hnodup).2
  · simp only [update_of_ne hk]
    exact h.pinned k'

/-- Every move keeps the owners apart. -/
theorem Sound.move {d : Prop} (h : c.Sound) {gone : Option Item} (hm : Move d c gone c') : c'.Sound := by
  cases hm with
  | stay => exact h
  | make k => exact h.make k
  | lend k b hk => exact h.lend hk b
  | store k p hk => exact h.store hk p
  | take k p hp => exact h.take k p hp
  | delete k hk => exact h.delete hk
  | copy hx => exact h.copy hx
  | drop x _ => exact h.drop x
  | release k hx last unpinned => exact h.release k hx last unpinned
  | pin k hx _ => exact h.pin k hx
  | unpin k hp => exact h.unpin hp

/-- Orderly calls stay apart. -/
theorem Apart.move (h : c.Apart) {gone : Option Item} (hm : Move True c gone c') : c'.Apart := by
  cases hm with
  | pin k hx unpinned => exact h.pin k (unpinned trivial)
  | unpin k hp => exact h.unpin hp
  | _ => exact ⟨h.pinned, h.pins⟩

/-- A thread that gives away its first item still has the others. -/
private theorem held_give {c : Custody Thread} (hk : c.held k = i :: is) {k' : Thread} {j : Item}
    (hj : j ∈ c.held k') (hne : j ≠ i) : j ∈ update c.held k is k' := by
  rw [has_thread_update]
  by_cases hk' : k' = k
  · subst hk'
    rw [hk] at hj
    exact .inl ⟨rfl, (List.mem_cons.1 hj).resolve_left hne⟩
  · exact .inr ⟨hk', hj⟩

private theorem held_get {c : Custody Thread} {t : List Item} {k' : Thread} {j : Item}
    (hj : j ∈ c.held k') : j ∈ update c.held k (t ++ c.held k) k' := by
  rw [has_thread_update]
  by_cases hk' : k' = k
  · subst hk'
    exact .inl ⟨rfl, List.mem_append_right _ hj⟩
  · exact .inr ⟨hk', hj⟩

/-- A borrowed item stays so, or its last handle is given up, and a thread gets it. -/
theorem Move.borrowed {d : Prop} {gone : Option Item} (hm : Move d c gone c') (h : c.Borrowed i) :
    c'.Borrowed i ∨ ∃ x ∈ c.handles, x.item = i ∧ x ∉ c'.handles ∧ c'.pinned = c.pinned ∧ ∃ k, i ∈ c'.held k := by
  obtain ⟨b, hb⟩ := h
  cases hm with
  | lend k b' hk => exact .inl ⟨b, hb.imp_left (List.mem_cons_of_mem _)⟩
  | copy hx => exact .inl ⟨b, hb.imp_left (List.mem_cons_of_mem _)⟩
  | drop x another =>
    by_cases hi : x.item = i
    · subst hi
      rcases another with ⟨k, y, hy, hyx⟩ | ⟨y, hy, hyx⟩
      · exact .inl ⟨y.borrow, .inr ⟨k, hyx ▸ hy⟩⟩
      · exact .inl ⟨y.borrow, .inl (hyx ▸ hy)⟩
    · exact .inl ⟨b, hb.imp_left (List.mem_erase_of_ne fun heq => hi (congrArg Handle.item heq).symm).2⟩
  | @release k x hx last unpinned =>
    by_cases hi : x.item = i
    · exact .inr ⟨x, hx, hi, fun hmem => last x hmem rfl, rfl, k, by simp [hi]⟩
    · exact .inl ⟨b, hb.imp_left (List.mem_erase_of_ne fun heq => hi (congrArg Handle.item heq).symm).2⟩
  | @pin k x hx unpinned =>
    rcases hb with hb | ⟨k', hb⟩
    · by_cases heq : (⟨b, i⟩ : Handle) = x
      · exact .inl ⟨b, .inr ⟨k, by simp [heq]⟩⟩
      · exact .inl ⟨b, .inl ((List.mem_erase_of_ne heq).2 hb)⟩
    · refine .inl ⟨b, .inr ⟨k', ?_⟩⟩
      by_cases hk' : k' = k
      · subst hk'
        simp [hb]
      · simpa [hk'] using hb
  | @unpin k x xs hp =>
    rcases hb with hb | ⟨k', hb⟩
    · exact .inl ⟨b, .inl (List.mem_cons_of_mem _ hb)⟩
    · by_cases hk' : k' = k
      · subst hk'
        rw [hp] at hb
        rcases List.mem_cons.1 hb with rfl | hb
        · exact .inl ⟨b, .inl List.mem_cons_self⟩
        · exact .inl ⟨b, .inr ⟨k', by simpa using hb⟩⟩
      · exact .inl ⟨b, .inr ⟨k', by simpa [hk'] using hb⟩⟩
  | _ => exact .inl ⟨b, hb⟩

/-- Every item but the one that is deleted goes on having an owner. -/
theorem Move.owned {d : Prop} {gone : Option Item} (hm : Move d c gone c') {j : Item} (hj : some j ≠ gone)
    (ho : ∃ o, c.Has o j) : ∃ o, c'.Has o j := by
  obtain ⟨o, ho⟩ := ho
  cases o with
  | thread k' =>
    cases hm with
    | make k => exact ⟨.thread k', held_get (t := [c.created]) ho⟩
    | @lend k b i is hk =>
      by_cases hi : j = i
      · exact ⟨.borrower b, .inl (hi ▸ List.mem_cons_self)⟩
      · exact ⟨.thread k', held_give hk ho hi⟩
    | @store k p i is hk =>
      by_cases hi : j = i
      · exact ⟨.pool p, by simp [Has, hi]⟩
      · exact ⟨.thread k', held_give hk ho hi⟩
    | take k p hp => exact ⟨.thread k', held_get ho⟩
    | delete k hk => exact ⟨.thread k', held_give hk ho fun hi => hj (hi ▸ rfl)⟩
    | @release k x hx last unpinned => exact ⟨.thread k', held_get (t := [x.item]) ho⟩
    | _ => exact ⟨.thread k', ho⟩
  | pool q =>
    cases hm with
    | @store k p i is hk =>
      refine ⟨.pool q, ?_⟩
      by_cases hq : q = p
      · subst hq
        simpa [Has] using Or.inl ho
      · simpa [Has, hq] using ho
    | @take k p t u hp =>
      by_cases hq : q = p
      · subst hq
        rcases List.mem_append.1 (hp.mem_iff.1 ho) with hj | hj
        · exact ⟨.thread k, by simpa [Has] using Or.inl hj⟩
        · exact ⟨.pool q, by simpa [Has] using hj⟩
      · exact ⟨.pool q, by simpa [Has, hq] using ho⟩
    | _ => exact ⟨.pool q, ho⟩
  | borrower b =>
    rcases hm.borrowed ⟨b, ho⟩ with ⟨b', hb'⟩ | ⟨x, _, _, _, _, k, hk⟩
    · exact ⟨.borrower b', hb'⟩
    · exact ⟨.thread k, hk⟩

/-- Pools and borrowers get items from each other, and from the hands of a thread. -/
theorem Move.origin {d : Prop} (h : c.Sound) {gone : Option Item} (hm : Move d c gone c') {o : Owner Thread} {j : Item}
    (ho : c'.Has o j) (hn : ∀ k, o ≠ .thread k) :
    (∃ o', (∀ k, o' ≠ .thread k) ∧ c.Has o' j) ∨ gone = none ∧ ∃ k, j ∈ c.held k ∧ j ∉ c'.held k := by
  have left {k : Thread} {i : Item} {is : List Item} (hk : c.held k = i :: is) :
      i ∈ c.held k ∧ i ∉ update c.held k is k := by
    have hnodup := hk ▸ h.held k
    rw [hk, update_self]
    exact ⟨List.mem_cons_self, (List.nodup_cons.1 hnodup).1⟩
  cases o with
  | thread k => exact absurd rfl (hn k)
  | pool p =>
    have same (ho : c.Has (.pool p) j) : ∃ o', (∀ k, o' ≠ .thread k) ∧ c.Has o' j := ⟨.pool p, by simp, ho⟩
    cases hm with
    | @store k q i is hk =>
      by_cases hp : p = q
      · subst hp
        rcases List.mem_append.1 (by simpa [Has] using ho : j ∈ c.items p ++ [i]) with ho | ho
        · exact .inl (same ho)
        · obtain rfl := List.mem_singleton.1 ho
          exact .inr ⟨rfl, k, left hk⟩
      · exact .inl (same (by simpa [Has, hp] using ho))
    | @take k q t rest hq =>
      refine .inl (same ?_)
      by_cases hp : p = q
      · subst hp
        exact hq.mem_iff.2 (List.mem_append_right _ (by simpa [Has] using ho))
      · simpa [Has, hp] using ho
    | _ => exact .inl (same ho)
  | borrower b =>
    have same (ho : c.Has (.borrower b) j) : ∃ o', (∀ k, o' ≠ .thread k) ∧ c.Has o' j := ⟨.borrower b, by simp, ho⟩
    cases hm with
    | @lend k b' i is hk =>
      rcases ho with ho | ho
      · rcases List.mem_cons.1 ho with heq | ho
        · obtain ⟨rfl, rfl⟩ := Handle.mk.inj heq
          exact .inr ⟨rfl, k, left hk⟩
        · exact .inl (same (.inl ho))
      · exact .inl (same (.inr ho))
    | copy hx =>
      refine .inl (same (ho.imp_left fun ho => ?_))
      rcases List.mem_cons.1 ho with rfl | ho
      · exact hx
      · exact ho
    | drop x another => exact .inl (same (ho.imp_left List.mem_of_mem_erase))
    | release k hx last unpinned => exact .inl (same (ho.imp_left List.mem_of_mem_erase))
    | @pin k x hx unpinned =>
      refine .inl (same ?_)
      rcases ho with ho | ⟨k', ho⟩
      · exact .inl (List.mem_of_mem_erase ho)
      · by_cases hk' : k' = k
        · subst hk'
          rcases List.mem_cons.1 (by simpa using ho : (⟨b, j⟩ : Handle) ∈ x :: c.pinned k') with rfl | ho
          · exact .inl hx
          · exact .inr ⟨k', ho⟩
        · exact .inr ⟨k', by simpa [hk'] using ho⟩
    | @unpin k x xs hp =>
      refine .inl (same ?_)
      rcases ho with ho | ⟨k', ho⟩
      · rcases List.mem_cons.1 ho with heq | ho
        · exact .inr ⟨k, by rw [hp, heq]; exact List.mem_cons_self⟩
        · exact .inl ho
      · by_cases hk' : k' = k
        · subst hk'
          exact .inr ⟨k', by rw [hp]; exact List.mem_cons_of_mem _ (by simpa using ho)⟩
        · exact .inr ⟨k', by simpa [hk'] using ho⟩
    | _ => exact .inl (same ho)

end Custody

/-! ### The steps are moves -/

section Steps

open Function Custody

variable [Fintype Thread] [DecidableEq Thread] {d : Prop} {s s' : State Thread} {k : Thread} {f : Frame}
  {l rest : List Frame}

omit [Fintype Thread] in
theorem custody_setThread (s : State Thread) (k : Thread) (l : List Frame) :
    (s.setThread k l).custody = { s.custody with
      held := update s.custody.held k (l.flatMap Frame.held)
      pinned := update s.custody.pinned k (l.filterMap Frame.pinned) } := by
  unfold State.custody State.setThread
  congr 1
  · funext k'
    by_cases hk : k' = k <;> simp [hk]
  · funext k'
    by_cases hk : k' = k <;> simp [hk]

section Moves

omit [Fintype Thread]

theorem setThread_setThread (s : State Thread) (k : Thread) (l l' : List Frame) :
    (s.setThread k l).setThread k l' = s.setThread k l' := by
  simp [State.setThread]

theorem setItems_setThread (s : State Thread) (k : Thread) (l : List Frame) (p : PoolId) (is : List Item) :
    (s.setThread k l).setItems p is = (s.setItems p is).setThread k l := rfl

variable {c : Custody Thread} {gone : Option Item}

/-- The frames of a thread are exchanged for others with the same items. -/
theorem move_same (hh : l.flatMap Frame.held = s.custody.held k)
    (hp : l.filterMap Frame.pinned = s.custody.pinned k) (hm : Move d c gone s.custody) :
    Move d c gone (s.setThread k l).custody := by
  rwa [custody_setThread, hh, hp, update_eq_self, update_eq_self]

theorem move_held (hp : l.filterMap Frame.pinned = s.custody.pinned k)
    (hm : Move d c gone { s.custody with held := update s.custody.held k (l.flatMap Frame.held) }) :
    Move d c gone (s.setThread k l).custody := by
  rwa [custody_setThread, hp, update_eq_self]

theorem move_pinned (hh : l.flatMap Frame.held = s.custody.held k)
    (hm : Move d c gone { s.custody with pinned := update s.custody.pinned k (l.filterMap Frame.pinned) }) :
    Move d c gone (s.setThread k l).custody := by
  rwa [custody_setThread, hh, update_eq_self]

end Moves

/-- A thread does the first thing on its stack. -/
theorem runFrame_moves (valid : Item → Bool) (creates : Bool) (hk : s.threads k = f :: rest) :
    Move d s.custody f.deleted (runFrame valid creates s k rest f).custody := by
  have hheld : s.custody.held k = f.held ++ rest.flatMap Frame.held := by simp [State.custody, hk]
  have hpinned : s.custody.pinned k = f.pinned.toList ++ rest.filterMap Frame.pinned := by
    cases hf : f.pinned <;> simp [State.custody, hk, hf]
  cases f with
  | create p =>
    simp only [runFrame]
    split
    · refine move_held hpinned.symm ?_
      have hmove := Move.make (d := d) s.custody k
      rw [hheld] at hmove
      exact hmove
    · exact move_same hheld.symm hpinned.symm (.stay _)
  | lend p i =>
    simp only [runFrame]
    exact move_held hpinned.symm (.lend s.custody k s.borrows hheld)
  | pull p =>
    simp only [runFrame]
    split
    · rename_i i hlast
      refine move_held hpinned.symm ?_
      have hperm : List.Perm (s.items p) ([i] ++ (s.items p).dropLast) :=
        (List.Perm.of_eq (List.dropLast_append_getLast? i hlast).symm).trans List.perm_append_comm
      have hmove := Move.take (d := d) s.custody k p hperm
      rw [hheld] at hmove
      exact hmove
    · exact move_same hheld.symm hpinned.symm (.stay _)
  | pulled p i =>
    simp only [runFrame]
    split
    · exact move_same hheld.symm hpinned.symm (.stay _)
    · exact move_same hheld.symm hpinned.symm (.stay _)
  | eraseInvalid p =>
    simp only [runFrame]
    refine move_held hpinned.symm ?_
    have hmove := Move.take (d := d) s.custody k p (t := (s.items p).filter (!valid ·)) (u := (s.items p).filter valid)
      ((List.filter_append_perm valid _).symm.trans List.perm_append_comm)
    rw [hheld] at hmove
    exact hmove
  | detach h target =>
    simp only [runFrame]
    split
    · exact move_same hheld.symm hpinned.symm (.stay _)
    · exact move_same hheld.symm hpinned.symm (.stay _)
  | detachFrom h o target =>
    simp only [runFrame]
    exact move_same hheld.symm hpinned.symm (.stay _)
  | attach h target =>
    simp only [runFrame]
    split
    · exact move_same hheld.symm hpinned.symm (.stay _)
    · exact move_pinned hheld.symm (.unpin s.custody k hpinned)
  | attachTo h n =>
    simp only [runFrame]
    exact move_pinned hheld.symm (.unpin s.custody k hpinned)
  | deleter i =>
    simp only [runFrame]
    split
    · exact move_same hheld.symm hpinned.symm (.stay _)
    · exact move_same hheld.symm hpinned.symm (.stay _)
  | deleterFrom p i =>
    simp only [runFrame]
    exact move_same hheld.symm hpinned.symm (.stay _)
  | push p i =>
    simp only [runFrame]
    split
    · exact move_held hpinned.symm (.store s.custody k p hheld)
    · exact move_same hheld.symm hpinned.symm (.stay _)
  | delete i =>
    simp only [runFrame]
    exact move_held hpinned.symm (.delete s.custody k hheld)
  | releasePool p =>
    simp only [runFrame]
    split
    · exact move_same hheld.symm hpinned.symm (.stay _)
    · rw [setItems_setThread, setThread_setThread]
      refine move_held hpinned.symm ?_
      have hmove := Move.take (d := d) s.custody k p (t := s.items p) (u := []) (by simp [State.custody])
      rw [hheld] at hmove
      exact hmove
  | destroyItems is =>
    cases is with
    | nil =>
      simp only [runFrame]
      exact move_same hheld.symm hpinned.symm (.stay _)
    | cons i is =>
      simp only [runFrame]
      exact move_same hheld.symm hpinned.symm (.stay _)

/-- A call of `attach` or `detach` does not begin while another one works on the same item. -/
def Orderly (s : State Thread) : Action Thread → Prop
  | .attach _ h _ => ¬ s.Pinned h.item
  | .detach _ h => ¬ s.Pinned h.item
  | _ => True

omit [Fintype Thread] [DecidableEq Thread] in
theorem not_pinned {i : Item} (h : ¬ s.Pinned i) (k : Thread) (x : Handle) (hx : x ∈ s.custody.pinned k) :
    x.item ≠ i := by
  obtain ⟨f, hf, hfx⟩ := List.mem_filterMap.1 hx
  exact fun hi => h ⟨k, f, hf, x, hfx, hi⟩

omit [Fintype Thread] [DecidableEq Thread] in
theorem State.Pinned.custody {i : Item} (h : s.Pinned i) : ∃ k, ∃ x ∈ s.custody.pinned k, x.item = i := by
  obtain ⟨k, f, hf, x, hfx, hi⟩ := h
  exact ⟨k, x, List.mem_filterMap.2 ⟨f, hf, hfx⟩, hi⟩

omit [Fintype Thread] [DecidableEq Thread] in
theorem custody_idle (hk : s.threads k = []) : s.custody.held k = [] ∧ s.custody.pinned k = [] := by
  simp [State.custody, hk]

/-- The handle is the last one to its item: giving it up calls the deleter. -/
def State.Last (s : State Thread) (x : Handle) : Prop :=
  ¬ (s.Pinned x.item ∨ ∃ y ∈ s.handles.erase x, y.item = x.item)

instance (s : State Thread) (x : Handle) : Decidable (s.Last x) :=
  inferInstanceAs (Decidable (¬ (s.Pinned x.item ∨ ∃ y ∈ s.handles.erase x, y.item = x.item)))

omit [Fintype Thread] in
/-- The stacks of the threads when one of them begins a call. -/
theorem threads_of_call (hk : s.threads k = [])
    (threads : s'.threads = update s.threads k l) :
    (∀ k' g, g ∈ s'.threads k' → g ∈ s.threads k' ∨ g ∈ l) ∧ ∀ k' g, g ∈ s.threads k' → g ∈ s'.threads k' := by
  rw [threads]
  refine ⟨fun k' g hg => ?_, fun k' g hg => ?_⟩
  · by_cases hk' : k' = k
    · subst hk'
      exact .inr (by simpa using hg)
    · rw [update_of_ne hk'] at hg
      exact .inl hg
  · by_cases hk' : k' = k
    · subst hk'
      simp [hk] at hg
    · rwa [update_of_ne hk']

omit [Fintype Thread] in
/-- A call begins that has no items yet. -/
theorem call_moves (hk : s.threads k = []) (hh : l.flatMap Frame.held = []) (hp : l.filterMap Frame.pinned = []) :
    Move d s.custody none (s.setThread k l).custody := by
  obtain ⟨hheld, hpinned⟩ := custody_idle hk
  exact move_same (hh.trans hheld.symm) (hp.trans hpinned.symm) (.stay _)

omit [Fintype Thread] in
/-- A call on a pool begins. -/
theorem callPool_moves {p : PoolId} (hk : s.threads k = []) (hf : f.held = []) (hf' : f.pinned = none) :
    Move d s.custody none (s.setThread k [f, .releasePool p]).custody := by
  refine call_moves hk ?_ ?_
  · rw [List.flatMap_cons, hf]
    rfl
  · rw [List.filterMap_cons_none hf']
    rfl

omit [Fintype Thread] in
/-- A call of `attach` or `detach` begins. -/
theorem callHandle_moves {x : Handle} {target : Option (Option PoolId)} (hk : s.threads k = []) (hx : x ∈ s.handles)
    (hp : d → ¬ s.Pinned x.item) :
    Move d s.custody none ({ s with handles := s.handles.erase x }.setThread k [.detach x target]).custody := by
  obtain ⟨hheld, hpinned⟩ := custody_idle hk
  have hmove := Move.pin (d := d) s.custody k hx fun hd => not_pinned (hp hd)
  rw [hpinned] at hmove
  exact move_pinned hheld.symm hmove

omit [Fintype Thread] in
/-- The last handle is given up, and the deleter is called. -/
theorem release_moves {x : Handle} (hk : s.threads k = []) (hx : x ∈ s.handles) (hlast : s.Last x) :
    Move d s.custody none ({ s with handles := s.handles.erase x }.setThread k [.deleter x.item]).custody := by
  obtain ⟨hheld, hpinned⟩ := custody_idle hk
  have hmove := Move.release (d := d) s.custody k hx (fun y hy heq => hlast (.inr ⟨y, hy, heq⟩))
    (not_pinned fun hx => hlast (.inl hx))
  rw [hheld] at hmove
  exact move_held hpinned.symm hmove

omit [Fintype Thread] [DecidableEq Thread] in
theorem not_has_init (o : Owner Thread) (i : Item) : ¬ (State.init : State Thread).custody.Has o i := by
  cases o <;> simp [Has, State.custody, State.init]

/-- What a step can do. -/
inductive Effect (s : State Thread) : Action Thread → State Thread → Prop where
  | newPool : Effect s .newPool { s with
      pools := s.pools + 1
      owners := update s.owners s.pools 1
      attached := update s.attached s.pools 0 }
  | copyPool {p : PoolId} (hp : 0 < s.owners p) :
      Effect s (.copyPool p) { s with owners := update s.owners p (s.owners p + 1) }
  | dropPool {k : Thread} {p : PoolId} (hk : s.threads k = []) (hp : 0 < s.owners p) :
      Effect s (.dropPool k p)
        ({ s with owners := update s.owners p (s.owners p - 1) }.setThread k [.releasePool p])
  | create {k : Thread} {p : PoolId} (hk : s.threads k = []) (hp : 0 < s.owners p) :
      Effect s (.create k p) (s.setThread k [.create p, .releasePool p])
  | get {k : Thread} {p : PoolId} (hk : s.threads k = []) (hp : 0 < s.owners p) :
      Effect s (.get k p) (s.setThread k [.pull p, .releasePool p])
  | eraseInvalid {k : Thread} {p : PoolId} (hk : s.threads k = []) (hp : 0 < s.owners p) :
      Effect s (.eraseInvalid k p) (s.setThread k [.eraseInvalid p, .releasePool p])
  | copyHandle {x : Handle} (hx : x ∈ s.handles) : Effect s (.copyHandle x) { s with handles := x :: s.handles }
  | dropHandle {k : Thread} {x : Handle} (hk : s.threads k = []) (hx : x ∈ s.handles)
      (hmore : s.Pinned x.item ∨ ∃ y ∈ s.handles.erase x, y.item = x.item) :
      Effect s (.dropHandle k x) { s with handles := s.handles.erase x }
  | release {k : Thread} {x : Handle} (hk : s.threads k = []) (hx : x ∈ s.handles) (hlast : s.Last x) :
      Effect s (.dropHandle k x) ({ s with handles := s.handles.erase x }.setThread k [.deleter x.item])
  | attach {k : Thread} {x : Handle} {p : Option PoolId} (hk : s.threads k = []) (hx : x ∈ s.handles)
      (hp : ∀ n ∈ p, n < s.pools) :
      Effect s (.attach k x p) ({ s with handles := s.handles.erase x }.setThread k [.detach x (some p)])
  | detach {k : Thread} {x : Handle} (hk : s.threads k = []) (hx : x ∈ s.handles) :
      Effect s (.detach k x) ({ s with handles := s.handles.erase x }.setThread k [.detach x none])
  | run {k : Thread} {f : Frame} {rest : List Frame} (hk : s.threads k = f :: rest) (valid : Item → Bool)
      (creates : Bool) : Effect s (.run k valid creates) (runFrame valid creates s k rest f)

theorem step_effect {a : Action Thread} (hs : step s a = some s') : Effect s a s' := by
  cases a with
  | newPool =>
    obtain rfl := Option.some.inj hs
    exact .newPool
  | copyPool p =>
    obtain ⟨hp, heq⟩ := Option.ite_none_right_eq_some.1 hs
    obtain rfl := Option.some.inj heq
    exact .copyPool hp
  | dropPool k p =>
    obtain ⟨⟨hk, hp⟩, heq⟩ := Option.ite_none_right_eq_some.1 hs
    obtain rfl := Option.some.inj heq
    exact .dropPool hk hp
  | create k p =>
    obtain ⟨⟨hk, hp⟩, heq⟩ := Option.ite_none_right_eq_some.1 hs
    obtain rfl := Option.some.inj heq
    exact .create hk hp
  | get k p =>
    obtain ⟨⟨hk, hp⟩, heq⟩ := Option.ite_none_right_eq_some.1 hs
    obtain rfl := Option.some.inj heq
    exact .get hk hp
  | eraseInvalid k p =>
    obtain ⟨⟨hk, hp⟩, heq⟩ := Option.ite_none_right_eq_some.1 hs
    obtain rfl := Option.some.inj heq
    exact .eraseInvalid hk hp
  | copyHandle x =>
    obtain ⟨hx, heq⟩ := Option.ite_none_right_eq_some.1 hs
    obtain rfl := Option.some.inj heq
    exact .copyHandle hx
  | dropHandle k x =>
    obtain ⟨⟨hk, hx⟩, heq⟩ := Option.ite_none_right_eq_some.1 hs
    split at heq
    · rename_i hmore
      obtain rfl := Option.some.inj heq
      exact .dropHandle hk hx hmore
    · rename_i hlast
      obtain rfl := Option.some.inj heq
      exact .release hk hx hlast
  | attach k x p =>
    obtain ⟨hp, hcall⟩ := Option.ite_none_right_eq_some.1 hs
    obtain ⟨⟨hk, hx⟩, heq⟩ := Option.ite_none_right_eq_some.1 hcall
    obtain rfl := Option.some.inj heq
    exact .attach hk hx hp
  | detach k x =>
    obtain ⟨⟨hk, hx⟩, heq⟩ := Option.ite_none_right_eq_some.1 hs
    obtain rfl := Option.some.inj heq
    exact .detach hk hx
  | run k valid creates =>
    simp only [step] at hs
    split at hs
    · cases hs
    · rename_i f rest hk
      obtain rfl := Option.some.inj hs
      exact .run hk valid creates

/-- Every step is a move of the items. -/
theorem step_moves {a : Action Thread} (ha : d → Orderly s a) (hs : step s a = some s') :
    ∃ gone, Move d s.custody gone s'.custody := by
  cases step_effect hs with
  | newPool | copyPool hp => exact ⟨_, .stay _⟩
  | @dropPool k p hk hp => exact ⟨_, call_moves (s := { s with owners := update s.owners p (s.owners p - 1) }) hk rfl rfl⟩
  | create hk hp | get hk hp | eraseInvalid hk hp => exact ⟨_, callPool_moves hk rfl rfl⟩
  | copyHandle hx => exact ⟨_, .copy s.custody hx⟩
  | @dropHandle k x hk hx hmore => exact ⟨_, .drop s.custody x (hmore.imp_left State.Pinned.custody)⟩
  | release hk hx hlast => exact ⟨_, release_moves hk hx hlast⟩
  | attach hk hx hp => exact ⟨_, callHandle_moves hk hx ha⟩
  | detach hk hx => exact ⟨_, callHandle_moves hk hx ha⟩
  | run hk valid creates => exact ⟨_, runFrame_moves valid creates hk⟩

/-- A thread does not take a handle from the program in the middle of a call. -/
theorem mem_handles_runFrame (valid : Item → Bool) (creates : Bool) {x : Handle} (hx : x ∈ s.handles) :
    x ∈ (runFrame valid creates s k rest f).handles := by
  cases f with
  | destroyItems is => cases is <;> exact hx
  | lend p i => exact List.mem_cons_of_mem _ hx
  | attachTo y n => exact List.mem_cons_of_mem _ hx
  | attach y target =>
    simp only [runFrame]
    split
    · exact hx
    · exact List.mem_cons_of_mem _ hx
  | _ =>
    simp only [runFrame]
    repeat' split
    all_goals exact hx

/-- A borrowed item stays so until the last handle to it is given up. -/
theorem step_borrowed {a : Action Thread} {i : Item} (hs : step s a = some s') (h : s.custody.Borrowed i) :
    s'.custody.Borrowed i ∨ ∃ k x, a = .dropHandle k x ∧ x ∈ s.handles ∧ x.item = i ∧ s.Last x := by
  obtain ⟨gone, hm⟩ := step_moves (d := False) False.elim hs
  rcases hm.borrowed h with h' | ⟨x, hx, hi, hnot, hpinned, _⟩
  · exact .inl h'
  -- otherwise a handle has been given up
  have kept (hsub : x ∈ s'.handles) : s'.custody.Borrowed i := absurd hsub hnot
  -- `attach` and `detach` keep the handle that they take
  have pinned {k : Thread} {y : Handle} {target : Option (Option PoolId)} (hk : s.threads k = [])
      (hs' : s' = { s with handles := s.handles.erase y }.setThread k [.detach y target]) : s'.custody.Borrowed i := by
    have hsame := congrFun hpinned k
    rw [(custody_idle hk).2] at hsame
    simp [hs', State.custody, State.setThread, Frame.pinned] at hsame
  cases step_effect hs with
  | newPool => exact .inl (kept hx)
  | copyPool hp => exact .inl (kept hx)
  | dropPool hk hp | create hk hp | get hk hp | eraseInvalid hk hp => exact .inl (kept hx)
  | copyHandle hy => exact .inl (kept (List.mem_cons_of_mem _ hx))
  | @dropHandle k y hk hy hmore =>
    have hxy : x = y := by
      by_contra hne
      exact hnot ((List.mem_erase_of_ne hne).2 hx)
    subst hxy
    refine .inl (hi ▸ hmore.elim (fun hp => ?_) fun ⟨y, hy, hyi⟩ => ⟨y.borrow, .inl (hyi ▸ hy)⟩)
    obtain ⟨k', y, hy, hyi⟩ := hp.custody
    exact ⟨y.borrow, .inr ⟨k', hyi ▸ hy⟩⟩
  | @release k y hk hy hlast =>
    have hxy : x = y := by
      by_contra hne
      exact hnot ((List.mem_erase_of_ne hne).2 hx)
    subst hxy
    exact .inr ⟨k, x, rfl, hx, hi, hlast⟩
  | attach hk hy hp => exact .inl (pinned hk rfl)
  | detach hk hy => exact .inl (pinned hk rfl)
  | run hk valid creates => exact .inl (kept (mem_handles_runFrame valid creates hx))

/-- No item ever has two owners. -/
theorem Reaches.sound {ok : State Thread → Action Thread → Prop} (h : Reaches ok s) : s.custody.Sound := by
  refine Run.invariant (I := fun s => s.custody.Sound) ?_ (fun s a s' hs _ hstep => ?_) h
  · refine ⟨fun o o' i ho => ?_, fun k => List.nodup_nil, fun p => List.nodup_nil, fun o i ho => ?_⟩
    · exact (not_has_init o i ho).elim
    · exact (not_has_init o i ho).elim
  · obtain ⟨gone, hm⟩ := step_moves False.elim hstep
    exact hs.move hm

end Steps

end TaoPQ.Pool
