import TaoPQ.PoolAccounts
import Mathlib.Data.Finset.Dedup

/-!
# What becomes of an item

Every call of a deleter is settled once: the item goes back to the pool that the deleter has locked, if that pool finds
it valid, and is deleted otherwise (`Kept`, `Doomed`).  With the owners and the accounts, this is all that can be asked
of a pool, at any time, whatever the threads do (`Reaches.bookkeeping_exact`).
-/

namespace TaoPQ.Pool

open Function Custody

variable {Thread : Type}

/-- Every release was answered by a return to the pool that was alive. -/
inductive Kept : List Event → Prop where
  | nil : Kept []
  | back {p : PoolId} {w : List Event} (h : Kept w) : Kept (.returned p :: .released (some p) :: w)

/-- The last release found no pool, or one that does not want the item. -/
inductive Doomed : List Event → Prop where
  | unattached {w : List Event} (h : Kept w) : Doomed (.released none :: w)
  | rejected {p : PoolId} {w : List Event} (h : Kept w) : Doomed (.rejected p :: .released (some p) :: w)

/-- The item was deleted, once, and nothing has happened to it since. -/
def Deleted (es : List Event) : Prop := ∃ w, es = .deleted :: w ∧ Doomed w

/-- What has become of the items of a frame so far. -/
def Frame.Tells : Frame → List Event → Prop
  | .deleterFrom p _, es => ∃ w, es = .released (some p) :: w ∧ Kept w
  | .push p _, es => ∃ w, es = .released (some p) :: w ∧ Kept w
  | .delete _, es => Doomed es
  | _, es => Kept es

namespace State

variable {s s' : State Thread} {i j : Item}

/-- What has become of the items, wherever they are. -/
structure Stories (s : State Thread) : Prop where
  held : ∀ k, ∀ f ∈ s.threads k, ∀ i ∈ f.held, f.Tells (s.story i)
  kept : ∀ o i, s.custody.Has o i → (∀ k, o ≠ .thread k) → Kept (s.story i)
  unborn : ∀ i, s.created ≤ i → s.story i = []
  gone : ∀ i, i < s.created → (∀ o, ¬ s.custody.Has o i) → Deleted (s.story i)

theorem story_record (e : Event) (hs : s'.log = (i, e) :: s.log) : s'.story i = e :: s.story i := by
  simp [story, hs]

theorem story_record_ne (e : Event) (hs : s'.log = (i, e) :: s.log) (hj : j ≠ i) : s'.story j = s.story j := by
  simp [story, hs, Ne.symm hj]

theorem story_same (hs : s'.log = s.log) (j : Item) : s'.story j = s.story j := by
  simp [story, hs]

variable [DecidableEq Thread] {k : Thread} {f : Frame} {rest l : List Frame}

/-- The next frame of a thread is exchanged for others, which tell what has become of its items. -/
theorem Stories.exchange (h : s.Stories) (hs : s.custody.Sound) (hk : s.threads k = f :: rest)
    (threads : s'.threads = update s.threads k (l ++ rest)) (move : Move False s.custody f.deleted s'.custody)
    (log : ∀ i, i ∉ f.held → s'.story i = s.story i) (held : ∀ g ∈ l, ∀ i ∈ g.held, g.Tells (s'.story i))
    (kept : ∀ i ∈ f.held, (∀ g ∈ l, i ∉ g.held) → f.deleted = none → Kept (s'.story i))
    (gone : ∀ i, f.deleted = some i → Deleted (s'.story i)) (created : s.created ≤ s'.created)
    (new : ∀ i, s.created ≤ i → i < s'.created → ∃ o, s'.custody.Has o i) : s'.Stories := by
  have hf : f ∈ s.threads k := by simp [hk]
  have hhas {i : Item} (hi : i ∈ f.held) : s.custody.Has (.thread k) i := List.mem_flatMap.2 ⟨f, hf, hi⟩
  refine ⟨fun k' g hg i hi => ?_, fun o i ho hn => ?_, fun i hi => ?_, fun i hi hno => ?_⟩
  · have old (hg : g ∈ s.threads k') (hn : i ∉ f.held) : g.Tells (s'.story i) := by
      rw [log i hn]
      exact h.held k' g hg i hi
    rw [threads] at hg
    by_cases hk' : k' = k
    · subst hk'
      rw [update_self] at hg
      rcases List.mem_append.1 hg with hg | hg
      · exact held g hg i hi
      · refine old (by simp [hk, hg]) fun hif => ?_
        exact (held_apart hs hk hif).1 g hg hi
    · rw [update_of_ne hk'] at hg
      refine old hg fun hif => ?_
      exact (held_apart hs hk hif).2 k' hk' g hg hi
  · rcases move.origin hs ho hn with ⟨o', hn', ho'⟩ | ⟨hgone, k', hin, hout⟩
    · rw [log i fun hi => hn' k (hs.exclusive o' _ i ho' (hhas hi))]
      exact h.kept o' i ho' hn'
    · -- the item was with the thread, in this frame
      have hkk' : k' = k := by
        by_contra hk'
        refine hout ?_
        simpa [custody, threads, update_of_ne hk'] using hin
      subst hkk'
      simp only [custody, hk, threads, update_self, List.flatMap_cons, List.flatMap_append, List.mem_append,
        not_or] at hin hout
      have hi : i ∈ f.held := hin.resolve_right hout.2
      exact kept i hi (fun g hg hig => hout.1 (List.mem_flatMap.2 ⟨g, hg, hig⟩)) hgone
  · have hi' : s.created ≤ i := created.trans hi
    rw [log i fun hif => absurd (hs.created _ _ (hhas hif)) (not_lt.2 hi')]
    exact h.unborn i hi'
  · by_cases hgone : f.deleted = some i
    · exact gone i hgone
    · have hold : ∀ o, ¬ s.custody.Has o i := fun o ho => by
        obtain ⟨o', ho'⟩ := move.owned (fun heq => hgone heq.symm) ⟨o, ho⟩
        exact hno o' ho'
      have hi' : i < s.created := by
        by_contra hlt
        obtain ⟨o, ho⟩ := new i (not_lt.1 hlt) hi
        exact hno o ho
      rw [log i fun hif => hold _ (hhas hif)]
      exact h.gone i hi' hold

/-- Calls may begin, but nothing becomes of the items. -/
theorem Stories.unchanged (h : s.Stories) (hs : s.custody.Sound) (move : Move False s.custody none s'.custody)
    (hmem : ∀ k g, g ∈ s'.threads k → g ∈ s.threads k ∨ ∀ i ∈ g.held, g.Tells (s.story i))
    (hkept : ∀ k g, g ∈ s.threads k → g ∈ s'.threads k) (log : s'.log = s.log) (created : s'.created = s.created) :
    s'.Stories := by
  refine ⟨fun k g hg i hi => ?_, fun o i ho hn => ?_, fun i hi => ?_, fun i hi hno => ?_⟩
  · rw [story_same log]
    exact (hmem k g hg).elim (fun hg => h.held k g hg i hi) fun hg => hg i hi
  · rw [story_same log]
    rcases move.origin hs ho hn with ⟨o', hn', ho'⟩ | ⟨_, k, hin, hout⟩
    · exact h.kept o' i ho' hn'
    · obtain ⟨g, hg, hi⟩ := List.mem_flatMap.1 hin
      exact absurd (List.mem_flatMap.2 ⟨g, hkept k g hg, hi⟩) hout
  · rw [story_same log]
    exact h.unborn i (created ▸ hi)
  · rw [story_same log]
    refine h.gone i (created ▸ hi) fun o ho => ?_
    obtain ⟨o', ho'⟩ := move.owned (by simp) ⟨o, ho⟩
    exact hno o' ho'

/-- Nothing is recorded, and the items of the frame stay with the thread. -/
theorem Stories.keep (h : s.Stories) (hs : s.custody.Sound) (hk : s.threads k = f :: rest)
    (move : Move False s.custody f.deleted s'.custody) (threads : s'.threads = update s.threads k (l ++ rest))
    (log : s'.log = s.log) (created : s'.created = s.created) (hd : f.deleted = none)
    (held : ∀ g ∈ l, ∀ i ∈ g.held, g.Tells (s.story i)) (kept : ∀ i ∈ f.held, ∃ g ∈ l, i ∈ g.held) : s'.Stories := by
  refine h.exchange hs hk threads move (fun i _ => story_same log i) (fun g hg i hi => ?_) (fun i hi hn _ => ?_)
    (fun i hi => ?_) created.ge fun i hi hi' => ?_
  · rw [story_same log]
    exact held g hg i hi
  · obtain ⟨g, hg, hig⟩ := kept i hi
    exact absurd hig (hn g hg)
  · cases hd.symm.trans hi
  · omega

/-- Something becomes of the item of the frame, and is recorded. -/
theorem Stories.tell (h : s.Stories) (hs : s.custody.Sound) (hk : s.threads k = f :: rest)
    (move : Move False s.custody f.deleted s'.custody) (threads : s'.threads = update s.threads k (l ++ rest))
    (e : Event) (log : s'.log = (i, e) :: s.log) (created : s'.created = s.created) (hf : f.held = [i])
    (held : ∀ g ∈ l, ∀ j ∈ g.held, j = i ∧ g.Tells (e :: s.story i))
    (kept : (∀ g ∈ l, i ∉ g.held) → f.deleted = none → Kept (e :: s.story i))
    (gone : ∀ j, f.deleted = some j → j = i ∧ Deleted (e :: s.story i)) : s'.Stories := by
  have hstory : s'.story i = e :: s.story i := story_record e log
  refine h.exchange hs hk threads move (fun j hj => story_record_ne e log ?_) (fun g hg j hj => ?_)
    (fun j hj hn hd => ?_) (fun j hj => ?_) created.ge fun j hj hj' => ?_
  · simpa [hf] using hj
  · obtain ⟨rfl, htells⟩ := held g hg j hj
    rwa [hstory]
  · obtain rfl : j = i := by simpa [hf] using hj
    rw [hstory]
    exact kept hn hd
  · obtain ⟨rfl, hdeleted⟩ := gone j hj
    rwa [hstory]
  · omega

variable [Fintype Thread]

/-- A thread does the first thing on its stack. -/
theorem Stories.runFrame (h : s.Stories) (hs : s.custody.Sound) (hk : s.threads k = f :: rest)
    (valid : Item → Bool) (creates : Bool) : (Pool.runFrame valid creates s k rest f).Stories := by
  have hmove := runFrame_moves (d := False) valid creates hk
  have htells := h.held k f (by simp [hk])
  have hstored {p : PoolId} {i : Item} (hi : i ∈ s.items p) : Kept (s.story i) := h.kept (.pool p) i hi (by simp)
  cases f with
  | create p =>
    simp only [Pool.runFrame] at hmove ⊢
    split at hmove <;> rename_i hc
    · rw [if_pos hc]
      refine h.exchange (l := [.lend p s.created]) hs hk rfl hmove (fun i _ => rfl) ?_ (by simp [Frame.held])
        (by simp [Frame.deleted]) (Nat.le_succ _) fun i hi hi' => ?_
      · simp only [List.mem_singleton, forall_eq, Frame.held, Frame.Tells]
        have hnil : s.story s.created = [] := h.unborn _ le_rfl
        show Kept (s.story s.created)
        rw [hnil]
        exact .nil
      · obtain rfl : i = s.created := le_antisymm (Nat.lt_succ_iff.1 hi') hi
        exact ⟨.thread k, by simp [Has, custody, setThread, Frame.held]⟩
    · rw [if_neg hc]
      exact h.keep (l := []) hs hk hmove rfl rfl rfl rfl (by simp) (by simp [Frame.held])
  | lend p i =>
    refine h.exchange (l := []) hs hk rfl hmove (fun i _ => rfl) (by simp) (fun j hj _ _ => ?_)
      (by simp [Frame.deleted]) le_rfl (fun j hj hj' => absurd hj' (not_lt.2 hj))
    exact htells j hj
  | pull p =>
    simp only [Pool.runFrame] at hmove ⊢
    split at hmove <;> rename_i hlast
    · rename_i i
      refine h.keep (l := [.pulled p i]) hs hk hmove rfl rfl rfl rfl ?_ (by simp [Frame.held])
      simpa [Frame.held, Frame.Tells] using hstored (List.mem_of_getLast? hlast)
    · exact h.keep (l := [.create p]) hs hk hmove rfl rfl rfl rfl (by simp [Frame.held]) (by simp [Frame.held])
  | pulled p i =>
    have hi : Kept (s.story i) := htells i (by simp [Frame.held])
    simp only [Pool.runFrame] at hmove ⊢
    split at hmove <;> rename_i hv
    · rw [if_pos hv]
      exact h.keep (l := [.lend p i]) hs hk hmove rfl rfl rfl rfl (by simpa [Frame.held, Frame.Tells] using hi)
        (by simp [Frame.held])
    · rw [if_neg hv]
      exact h.keep (l := [.deleter i, .pull p]) hs hk hmove rfl rfl rfl rfl
        (by simpa [Frame.held, Frame.Tells] using hi) (by simp [Frame.held])
  | eraseInvalid p =>
    refine h.keep (l := [.destroyItems ((s.items p).filter (!valid ·))]) hs hk hmove rfl rfl rfl rfl ?_
      (by simp [Frame.held])
    simp only [List.mem_singleton, forall_eq, Frame.held, Frame.Tells]
    exact fun i hi => hstored (List.mem_of_mem_filter hi)
  | detach x target =>
    simp only [Pool.runFrame] at hmove ⊢
    split at hmove
    · rename_i o _
      exact h.keep (l := [.detachFrom x o target]) hs hk hmove rfl rfl rfl rfl (by simp [Frame.held])
        (by simp [Frame.held])
    · exact h.keep (l := [.attach x target]) hs hk hmove rfl rfl rfl rfl (by simp [Frame.held]) (by simp [Frame.held])
  | detachFrom x o target =>
    exact h.keep (l := [.releasePool o, .attach x target]) hs hk hmove rfl rfl rfl rfl (by simp [Frame.held])
      (by simp [Frame.held])
  | attach x target =>
    simp only [Pool.runFrame] at hmove ⊢
    split at hmove
    · rename_i n _
      exact h.keep (l := [.attachTo x n]) hs hk hmove rfl rfl rfl rfl (by simp [Frame.held]) (by simp [Frame.held])
    · exact h.keep (l := []) hs hk hmove rfl rfl rfl rfl (by simp) (by simp [Frame.held])
  | attachTo x n =>
    exact h.keep (l := [.releasePool n]) hs hk hmove rfl rfl rfl rfl (by simp [Frame.held]) (by simp [Frame.held])
  | deleter i =>
    have hi : Kept (s.story i) := htells i (by simp [Frame.held])
    simp only [Pool.runFrame] at hmove ⊢
    split at hmove
    · rename_i p _
      exact h.tell (l := [.deleterFrom p i]) hs hk hmove rfl (.released (some p)) rfl rfl rfl
        (by simpa [Frame.held, Frame.Tells] using hi) (by simp [Frame.held]) (by simp [Frame.deleted])
    · exact h.tell (l := [.delete i]) hs hk hmove rfl (.released none) rfl rfl rfl
        (by simpa [Frame.held, Frame.Tells] using Doomed.unattached hi) (by simp [Frame.held]) (by simp [Frame.deleted])
  | deleterFrom p i =>
    refine h.keep (l := [.push p i]) hs hk hmove rfl rfl rfl rfl ?_ (by simp [Frame.held])
    simp only [List.mem_singleton, forall_eq, Frame.held]
    exact htells i (by simp [Frame.held])
  | push p i =>
    obtain ⟨w, hw, hkept⟩ : ∃ w, s.story i = .released (some p) :: w ∧ Kept w := htells i (by simp [Frame.held])
    simp only [Pool.runFrame] at hmove ⊢
    split at hmove <;> rename_i hv
    · rw [if_pos hv]
      refine h.tell (l := [.releasePool p]) hs hk hmove rfl (.returned p) rfl rfl rfl (by simp [Frame.held])
        (fun _ _ => ?_) (by simp [Frame.deleted])
      rw [hw]
      exact .back hkept
    · rw [if_neg hv]
      have hdoomed : Doomed (.rejected p :: s.story i) := by
        rw [hw]
        exact .rejected hkept
      exact h.tell (l := [.releasePool p, .delete i]) hs hk hmove rfl (.rejected p) rfl rfl rfl
        (by simpa [Frame.held, Frame.Tells] using hdoomed) (by simp [Frame.held]) (by simp [Frame.deleted])
  | delete i =>
    have hi : Doomed (s.story i) := htells i (by simp [Frame.held])
    refine h.tell (l := []) hs hk hmove rfl .deleted rfl rfl rfl (by simp) (by simp [Frame.deleted]) fun j hj => ?_
    obtain rfl : i = j := by simpa [Frame.deleted] using hj
    exact ⟨rfl, _, rfl, hi⟩
  | releasePool p =>
    simp only [Pool.runFrame] at hmove ⊢
    split at hmove <;> rename_i hp
    · rw [if_pos hp]
      exact h.keep (l := []) hs hk hmove rfl rfl rfl rfl (by simp) (by simp [Frame.held])
    · rw [if_neg hp]
      rw [setItems_setThread, setThread_setThread] at hmove ⊢
      refine h.keep (l := [.destroyItems (s.items p)]) hs hk hmove rfl rfl rfl rfl ?_ (by simp [Frame.held])
      simp only [List.mem_singleton, forall_eq, Frame.held, Frame.Tells]
      exact fun i hi => hstored hi
  | destroyItems is =>
    cases is with
    | nil => exact h.keep (l := []) hs hk hmove rfl rfl rfl rfl (by simp) (by simp [Frame.held])
    | cons i is =>
      refine h.keep (l := [.deleter i, .destroyItems is]) hs hk hmove rfl rfl rfl rfl ?_ (by simp [Frame.held])
      simpa [Frame.held, Frame.Tells] using htells

omit [Fintype Thread] in
/-- A call that begins has no items, but for the deleter of the last handle. -/
theorem Stories.call (h : s.Stories) (hs : s.custody.Sound) (hm : Move False s.custody none s'.custody)
    (hk : s.threads k = []) (threads : s'.threads = update s.threads k l) (log : s'.log = s.log)
    (created : s'.created = s.created) (held : ∀ g ∈ l, ∀ i ∈ g.held, g.Tells (s.story i)) : s'.Stories := by
  obtain ⟨hmem, hkept⟩ := threads_of_call hk threads
  exact h.unchanged hs hm (fun k' g hg => (hmem k' g hg).imp_right (held g)) hkept log created

omit [Fintype Thread] in
theorem Stories.callPool (h : s.Stories) (hs : s.custody.Sound) {p : PoolId} (hk : s.threads k = []) (hf : f.held = [])
    (hf' : f.pinned = none) : (s.setThread k [f, .releasePool p]).Stories := by
  refine h.call hs (callPool_moves hk hf hf') hk rfl rfl rfl fun g hg i hi => ?_
  rcases List.mem_cons.1 hg with rfl | hg
  · simp [hf] at hi
  · obtain rfl := List.mem_singleton.1 hg
    cases hi

omit [Fintype Thread] in
theorem Stories.callHandle (h : s.Stories) (hs : s.custody.Sound) {x : Handle} {target : Option (Option PoolId)}
    (hk : s.threads k = []) (hx : x ∈ s.handles) :
    State.Stories ({ s with handles := s.handles.erase x }.setThread k [.detach x target]) :=
  h.call hs (callHandle_moves hk hx False.elim) hk rfl rfl rfl (by simp [Frame.held])

/-- Every step tells what becomes of the items. -/
theorem Stories.step (h : s.Stories) (hs : s.custody.Sound) {a : Action Thread}
    (hstep : Pool.step s a = some s') : s'.Stories := by
  cases step_effect hstep with
  | newPool | copyPool hp => exact h.unchanged hs (.stay _) (fun _ _ => .inl) (fun _ _ => id) rfl rfl
  | @dropPool k p hk hp =>
    exact h.call hs (call_moves (s := { s with owners := update s.owners p (s.owners p - 1) }) hk rfl rfl) hk rfl rfl rfl
      (by simp [Frame.held])
  | create hk hp | get hk hp | eraseInvalid hk hp => exact h.callPool hs hk rfl rfl
  | copyHandle hx => exact h.unchanged hs (.copy _ hx) (fun _ _ => .inl) (fun _ _ => id) rfl rfl
  | @dropHandle k x hk hx hmore =>
    exact h.unchanged hs (.drop _ x (hmore.imp_left State.Pinned.custody)) (fun _ _ => .inl) (fun _ _ => id) rfl rfl
  | @release k x hk hx hlast =>
    have hkept : Kept (s.story x.item) := h.kept (.borrower x.borrow) x.item (.inl hx) (by simp)
    exact h.call hs (release_moves hk hx hlast) hk rfl rfl rfl (by simpa [Frame.held, Frame.Tells] using hkept)
  | attach hk hx hp => exact h.callHandle hs hk hx
  | detach hk hx => exact h.callHandle hs hk hx
  | run hk valid creates => exact h.runFrame hs hk valid creates

end State

/-! ### In every state -/

/-- The borrowed items that are attached to a pool. -/
def State.borrowed (s : State Thread) (p : PoolId) : List Item :=
  ((s.handles.filter fun x => s.deleterPool x.item = some p).map Handle.item).dedup

/-- Where the items are, and what has become of them. -/
structure State.Exact (s : State Thread) : Prop where
  /-- An item is with one borrower, in one pool, or with one thread. -/
  owner : ∀ o o' i, s.custody.Has o i → s.custody.Has o' i → o = o'
  /-- No item is twice in a pool. -/
  items : ∀ p, (s.items p).Nodup
  unattached : ∀ p i, i ∈ s.items p → s.deleterPool i = none
  /-- All calls of deleters that are over have returned the item to the pool, or deleted it for good. -/
  settled : ∀ i, (∀ k, ¬ s.custody.Has (.thread k) i) →
    Kept (s.story i) ∧ (s.created ≤ i ∨ ∃ o, s.custody.Has o i) ∨ Deleted (s.story i) ∧ ∀ o, ¬ s.custody.Has o i

/-- What `attached()` returns. -/
structure State.Counted (s : State Thread) : Prop where
  attached : ∀ p, s.Living p → 0 ≤ s.attached p
  /-- When no operation is in progress, a pool counts the borrowed items that are attached to it. -/
  atRest : s.AtRest → ∀ p, s.Living p → s.attached p = (s.borrowed p).length

section Exact

variable {s : State Thread}

/-- At rest, all items that are attached to a pool are with borrowers. -/
theorem charged_atRest (h : s.Accounts) (hs : s.custody.Sound) (hu : s.Unattached) (hr : s.AtRest) (p : PoolId) :
    (s.charged p).card = (s.borrowed p).length := by
  have hcharged : s.charged p = ((s.handles.filter fun x => s.deleterPool x.item = some p).map Handle.item).toFinset := by
    ext i
    rw [State.mem_charged, List.mem_toFinset, List.mem_map]
    constructor
    · rintro ⟨_, hd, _⟩
      obtain ⟨o, ho⟩ := h.owned i (by simp [hd])
      cases o with
      | thread k => simp [Has, State.custody, hr k] at ho
      | pool q => cases (hu q i ho).symm.trans hd
      | borrower b =>
        rcases ho with hx | ⟨k, hx⟩
        · exact ⟨⟨b, i⟩, List.mem_filter.2 ⟨hx, by simpa using hd⟩, rfl⟩
        · simp [State.custody, hr k] at hx
    · rintro ⟨x, hx, rfl⟩
      obtain ⟨hx, hd⟩ := List.mem_filter.1 hx
      refine ⟨hs.created (.borrower x.borrow) x.item (.inl hx), by simpa using hd, ?_⟩
      rintro ⟨k, f, hf, _⟩
      simp [hr k] at hf
  rw [hcharged, List.card_toFinset]
  rfl

variable [Fintype Thread] [DecidableEq Thread]

variable {ok : State Thread → Action Thread → Prop}

theorem Reaches.unattached (h : Reaches ok s) : s.Unattached := by
  refine (Run.invariant (I := fun s => s.custody.Sound ∧ s.Unattached) ⟨Reaches.sound (.init : Reaches ok _), ?_⟩
    (fun s a s' hs _ hstep => ?_) h).2
  · exact fun p i hi => (List.not_mem_nil hi).elim
  · obtain ⟨gone, hm⟩ := step_moves False.elim hstep
    exact ⟨hs.1.move hm, hs.2.step hs.1 hstep⟩

theorem Reaches.stories (h : Reaches ok s) : s.Stories := by
  refine (Run.invariant (I := fun s => s.custody.Sound ∧ s.Stories) ⟨Reaches.sound (.init : Reaches ok _), ?_⟩
    (fun s a s' hs _ hstep => ?_) h).2
  · exact ⟨fun k f hf => absurd hf List.not_mem_nil, fun o i ho => absurd ho (not_has_init o i), fun i _ => rfl,
      fun i hi => absurd hi (Nat.not_lt_zero i)⟩
  · obtain ⟨gone, hm⟩ := step_moves False.elim hstep
    exact ⟨hs.1.move hm, hs.2.step hs.1 hstep⟩

theorem Reaches.accounts (h : Reaches ok s) (hok : ∀ s a, ok s a → Orderly s a) : s.Accounts := by
  refine (Run.invariant (I := fun s => (s.custody.Sound ∧ s.Unattached) ∧ s.custody.Apart ∧ s.Accounts)
    ⟨⟨Reaches.sound (.init : Reaches ok _), ?_⟩, ?_, ?_⟩ (fun s a s' hs ha hstep => ?_) h).2.2
  · exact fun p i hi => (List.not_mem_nil hi).elim
  · exact ⟨fun k => List.nodup_nil, fun k k' x x' hx => (List.not_mem_nil hx).elim⟩
  · have hno (f : Frame) : f ∉ ([] : List Frame) := List.not_mem_nil
    refine ⟨fun i hi => absurd rfl hi, fun i p hp => absurd hp (by simp [State.init]), fun k f hf => absurd hf (hno f),
      fun p hp => absurd hp (lt_irrefl 0), fun k f hf => absurd hf (hno f), fun p hp => ?_⟩
    rcases hp with hp | ⟨k, f, hf, _⟩
    · exact absurd hp (lt_irrefl 0)
    · exact absurd hf (hno f)
  · obtain ⟨⟨hs, hu⟩, hp, h⟩ := hs
    obtain ⟨gone, hm⟩ := step_moves (fun _ => hok s a ha) hstep
    exact ⟨⟨hs.move hm, hu.step hs hstep⟩, hp.move hm, h.step hs hp hu (hok s a ha) hstep⟩

/-- However the steps of the threads are interleaved, and whatever `v_is_valid` and `v_create` answer.  The counts are
exact as long as calls of `attach` and `detach` for the same item do not overlap. -/
theorem Reaches.bookkeeping_exact (h : Reaches ok s) :
    s.Exact ∧ ((∀ s a, ok s a → Orderly s a) → s.Counted) := by
  have hs := h.sound
  refine ⟨⟨hs.exclusive, hs.items, h.unattached, fun i hi => ?_⟩, fun hok => ?_⟩
  · have ht := h.stories
    by_cases howned : ∃ o, s.custody.Has o i
    · obtain ⟨o, ho⟩ := howned
      exact .inl ⟨ht.kept o i ho fun k hk => hi k (hk ▸ ho), .inr ⟨o, ho⟩⟩
    · by_cases hc : i < s.created
      · exact .inr ⟨ht.gone i hc fun o ho => howned ⟨o, ho⟩, fun o ho => howned ⟨o, ho⟩⟩
      · refine .inl ⟨?_, .inl (not_lt.1 hc)⟩
        rw [ht.unborn i (not_lt.1 hc)]
        exact .nil
  · have ha := h.accounts hok
    refine ⟨fun p hp => ?_, fun hr p hp => ?_⟩
    · rw [ha.attached p hp]
      exact Int.natCast_nonneg _
    · rw [ha.attached p hp, charged_atRest ha hs h.unattached hr p]

end Exact

instance [Fintype Thread] (s : State Thread) : (a : Action Thread) → Decidable (Orderly s a)
  | .newPool => inferInstanceAs (Decidable True)
  | .copyPool _ => inferInstanceAs (Decidable True)
  | .dropPool _ _ => inferInstanceAs (Decidable True)
  | .create _ _ => inferInstanceAs (Decidable True)
  | .get _ _ => inferInstanceAs (Decidable True)
  | .eraseInvalid _ _ => inferInstanceAs (Decidable True)
  | .copyHandle _ => inferInstanceAs (Decidable True)
  | .dropHandle _ _ => inferInstanceAs (Decidable True)
  | .attach _ x _ => inferInstanceAs (Decidable (¬ s.Pinned x.item))
  | .detach _ x => inferInstanceAs (Decidable (¬ s.Pinned x.item))
  | .run _ _ _ => inferInstanceAs (Decidable True)

/-- The first thread of two, or the second one, does the next thing on its stack. -/
def run (second : Bool) : Action Bool := .run second (fun _ => true) true

/-- One thread has borrowed an item that another one is just returning to the same pool. -/
theorem exact_one_borrowed : ∃ s : State Bool, (s.attached 0 = 1 ∧ s.threads true ≠ []) ∧ s.Exact ∧ s.Counted := by
  obtain ⟨s, hs, h⟩ := Run.of_trace .init step Orderly
    (P := fun s : State Bool => s.attached 0 = 1 ∧ s.threads true ≠ [])
    [.newPool, .create true 0, run true, run true, run true, .get false 0, run false, run false, run false,
      .dropHandle true ⟨0, 0⟩, run true, run true, run false] (by decide +kernel)
  exact ⟨s, h, (Reaches.bookkeeping_exact hs).1, (Reaches.bookkeeping_exact hs).2 fun _ _ ha => ha⟩

/-- Two threads detach copies of one handle at the same time: both find the pool, and both subtract. -/
theorem detached_twice : ∃ s : State Bool, Reaches (fun _ _ => True) s ∧
    s.AtRest ∧ s.Living 0 ∧ s.attached 0 = -1 ∧ s.borrowed 0 = [] :=
  Run.of_trace .init step (fun _ _ => True)
    [.newPool, .create false 0, run false, run false, run false, .copyHandle ⟨0, 0⟩, .detach false ⟨0, 0⟩,
      .detach true ⟨0, 0⟩, run false, run true, run false, run true, run false, run true, run false, run true]
    (by decide +kernel)

end TaoPQ.Pool
