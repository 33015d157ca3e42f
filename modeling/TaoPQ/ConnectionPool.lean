import TaoPQ.PoolOwners
import TaoPQ.Registration

/-!
# The connection pool

`connection_pool` (`connection_pool.hpp`, `connection_pool.cpp`): a pool (`TaoPQ.Pool`) whose items are connections, on
which their borrowers make calls (`TaoPQ.Program`).  A connection is valid for the pool if it is idle.

The objects of a connection share the ownership of it, and a handle of the pool stands for their pointers too: the last
one is given up only when the objects are gone.
-/

namespace TaoPQ.ConnectionPool

open Function

/-- A poll callback: `internal::poll`, or one of the program. -/
inductive PollCallback where
  | internalPoll
  | user (n : Nat)
  deriving DecidableEq, Repr

/-- A connection, with `m_timeout` in milliseconds and `m_poll`. -/
structure Member (DB : Type) where
  state : TaoPQ.State DB
  timeout : Option Nat
  poll : PollCallback

namespace Member

variable {DB : Type}

/-- A connection just opened to a database with the content `db`. -/
def init (db : DB) : Member DB := ⟨.init db, none, .internalPoll⟩

/-- `connection::is_idle` -/
def IsIdle (m : Member DB) : Prop := m.state.conn.pg.transactionStatus = .idle

instance (m : Member DB) : Decidable m.IsIdle := inferInstanceAs (Decidable (_ = _))

/-- The transactions, pipelines, table readers and table writers of the connection are gone. -/
def Abandoned (m : Member DB) : Prop := m.state.objects.keys = [] ∧ m.state.bulks.keys = []

instance (m : Member DB) : Decidable m.Abandoned := inferInstanceAs (Decidable (_ ∧ _))

end Member

/-- The pools with the connections, and `m_timeout` and `m_poll` of each pool. -/
structure State (Thread DB : Type) where
  pool : Pool.State Thread
  conns : Pool.Item → Option (Member DB)
  timeout : Pool.PoolId → Option Nat
  poll : Pool.PoolId → PollCallback

variable {Thread DB : Type}

def State.init : State Thread DB := ⟨.init, fun _ => none, fun _ => none, fun _ => .internalPoll⟩

/-- `v_is_valid` -/
def State.vIsValid (s : State Thread DB) (i : Pool.Item) : Bool := (s.conns i).any fun m => decide m.IsIdle

/-- What the program and its threads do.  `connection` is `get` of the pool, with what follows it. -/
inductive Action (Thread DB : Type) where
  | pool (a : Pool.Action Thread)
  /-- A thread in a call goes on.  `v_create` opens a connection to a database with that content, or throws. -/
  | run (k : Thread) (opened : Option DB)
  /-- A borrower uses the connection. -/
  | call (h : Pool.Handle) (c : Call DB)
  | setTimeout (h : Pool.Handle) (timeout : Option Nat)
  | setPollCallback (h : Pool.Handle) (poll : PollCallback)
  | setPoolTimeout (p : Pool.PoolId) (timeout : Option Nat)
  | setPoolPollCallback (p : Pool.PoolId) (poll : PollCallback)

/-- `pool::create` is hidden by `connection_pool::create`, and a thread goes on by `Action.run`. -/
def Public : Pool.Action Thread → Bool
  | .create _ _ => false
  | .run _ _ _ => false
  | _ => true

/-- The connections after a thread has gone on: one may be new, and `connection` has set the timeout and the poll
callback of the one that it returns. -/
def State.connsAfter (s : State Thread DB) (k : Thread) (opened : Option DB) (i : Pool.Item) : Option (Member DB) :=
  match s.pool.threads k, opened with
  | .create _ :: _, some db => if i = s.pool.created then some (.init db) else s.conns i
  | .lend p j :: _, _ =>
    if i = j then (s.conns i).map fun m => { m with timeout := s.timeout p, poll := s.poll p } else s.conns i
  | _, _ => s.conns i

/-- A function is called on a connection that the program holds. -/
def State.onMember (s : State Thread DB) (h : Pool.Handle) (f : Member DB → Option (Member DB)) :
    Option (State Thread DB) :=
  if h ∈ s.pool.handles then
    ((s.conns h.item).bind f).map fun m => { s with conns := update s.conns h.item (some m) }
  else none

/-- The last handle to a connection goes after all objects of the connection. -/
def State.Releases (s : State Thread DB) : Pool.Action Thread → Prop
  | .dropHandle _ h => s.pool.Last h → ∀ m ∈ s.conns h.item, m.Abandoned
  | _ => True

variable [Fintype Thread] [DecidableEq Thread]

instance (s : State Thread DB) : (a : Pool.Action Thread) → Decidable (s.Releases a)
  | .dropHandle _ h => inferInstanceAs (Decidable (s.pool.Last h → ∀ m ∈ s.conns h.item, m.Abandoned))
  | .newPool | .copyPool _ | .dropPool _ _ | .create _ _ | .get _ _ | .eraseInvalid _ _ | .copyHandle _
  | .attach _ _ _ | .detach _ _ | .run _ _ _ => inferInstanceAs (Decidable True)

/-- One step of the program or of one of its threads.  `W` says what the environment does to each connection. -/
def step (W : Pool.Item → World) (s : State Thread DB) : Action Thread DB → Option (State Thread DB)
  | .pool a =>
    if Public a ∧ s.Releases a then (Pool.step s.pool a).map fun pool => { s with pool := pool } else none
  | .run k opened =>
    (Pool.step s.pool (.run k s.vIsValid opened.isSome)).map fun pool =>
      { s with pool := pool, conns := s.connsAfter k opened }
  | .call h c =>
    s.onMember h fun m =>
      if c.Legal m.state then
        (perform (W h.item) c m.state).stateLeft.map fun t => { m with state := t }
      else none
  | .setTimeout h timeout => s.onMember h fun m => some { m with timeout := timeout }
  | .setPollCallback h poll => s.onMember h fun m => some { m with poll := poll }
  | .setPoolTimeout p timeout =>
    if 0 < s.pool.owners p then some { s with timeout := update s.timeout p timeout } else none
  | .setPoolPollCallback p poll =>
    if 0 < s.pool.owners p then some { s with poll := update s.poll p poll } else none

/-- The states reached by steps that `ok` accepts. -/
abbrev Reaches (W : Pool.Item → World) (ok : State Thread DB → Action Thread DB → Prop) : State Thread DB → Prop :=
  Run .init (step W) ok

/-! ### Lent connections are clean -/

/-- Objects are ended in order, and a connection in pipeline mode is not returned while it is idle. -/
def InOrder (s : State Thread DB) : Action Thread DB → Prop
  | .call h c => ∀ m ∈ s.conns h.item, c.InOrder m.state
  | .pool (.dropHandle _ h) => s.pool.Last h → ∀ m ∈ s.conns h.item, m.IsIdle → m.state.conn.pg.pipeline = false
  | _ => True

/-- What the next borrower of a connection relies on, if the connection is idle. -/
structure Member.Tidy (m : Member DB) : Prop where
  abandoned : m.Abandoned
  plain : m.IsIdle → m.state.conn.pg.pipeline = false

/-- The objects of all connections are in order, those that nobody has borrowed are tidy, and those that are just
being lent are idle. -/
structure State.Kept (s : State Thread DB) : Prop where
  sound : s.pool.custody.Sound
  ordered : ∀ i, ∀ m ∈ s.conns i, m.state.Registered ∧ m.state.Owned
  tidy : ∀ i, ¬ s.pool.custody.Borrowed i → ∀ m ∈ s.conns i, m.Tidy
  lent : ∀ k p i, .lend p i ∈ s.pool.threads k → ∃ m, s.conns i = some m ∧ m.IsIdle

section Pool

omit [Fintype Thread]

variable {s : Pool.State Thread} {k : Thread} {f : Pool.Frame} {rest l : List Pool.Frame} {i : Pool.Item}
  {p : Pool.PoolId}

theorem mem_threads_update (hk : s.threads k = f :: rest) {k' : Thread} {g : Pool.Frame}
    (hg : g ∈ update s.threads k (l ++ rest) k') : g ∈ l ∨ g ∈ s.threads k' := by
  by_cases hk' : k' = k
  · subst hk'
    rw [update_self] at hg
    refine (List.mem_append.1 hg).imp_right fun hg => ?_
    rw [hk]
    exact List.mem_cons_of_mem _ hg
  · rw [update_of_ne hk'] at hg
    exact .inr hg

/-- A connection is lent that is new, or that was found valid. -/
theorem lend_of_runFrame [Fintype Thread] (hk : s.threads k = f :: rest) {valid : Pool.Item → Bool} {creates : Bool}
    {k' : Thread} (hg : .lend p i ∈ (Pool.runFrame valid creates s k rest f).threads k') :
    .lend p i ∈ s.threads k' ∨ (f = .create p ∧ creates = true ∧ i = s.created) ∨ f = .pulled p i ∧ valid i = true := by
  have old (l : List Pool.Frame) (hl : .lend p i ∉ l) (hg : .lend p i ∈ update s.threads k (l ++ rest) k') :
      .lend p i ∈ s.threads k' ∨ (f = .create p ∧ creates = true ∧ i = s.created) ∨ f = .pulled p i ∧ valid i = true :=
    .inl ((mem_threads_update hk hg).resolve_left hl)
  cases f with
  | create q =>
    simp only [Pool.runFrame] at hg
    split at hg
    · rename_i hc
      rcases mem_threads_update (l := [.lend q s.created]) hk hg with hg | hg
      · obtain ⟨rfl, rfl⟩ : p = q ∧ i = s.created := by simpa using hg
        exact .inr (.inl ⟨rfl, hc, rfl⟩)
      · exact .inl hg
    · exact old [] (by simp) hg
  | pulled q j =>
    simp only [Pool.runFrame] at hg
    split at hg
    · rename_i hv
      rcases mem_threads_update (l := [.lend q j]) hk hg with hg | hg
      · obtain ⟨rfl, rfl⟩ : p = q ∧ i = j := by simpa using hg
        exact .inr (.inr ⟨rfl, hv⟩)
      · exact .inl hg
    · exact old [.deleter j, .pull q] (by simp) hg
  | lend q j => exact old [] (by simp) hg
  | pull q =>
    simp only [Pool.runFrame] at hg
    split at hg
    · exact old [.pulled q _] (by simp) hg
    · exact old [.create q] (by simp) hg
  | eraseInvalid q => exact old [.destroyItems _] (by simp) hg
  | detach x target =>
    simp only [Pool.runFrame] at hg
    split at hg
    · exact old [.detachFrom x _ target] (by simp) hg
    · exact old [.attach x target] (by simp) hg
  | detachFrom x o target => exact old [.releasePool o, .attach x target] (by simp) hg
  | attach x target =>
    simp only [Pool.runFrame] at hg
    split at hg
    · exact old [.attachTo x _] (by simp) hg
    · exact old [] (by simp) hg
  | attachTo x n => exact old [.releasePool n] (by simp) hg
  | deleter j =>
    simp only [Pool.runFrame] at hg
    split at hg
    · exact old [.deleterFrom _ j] (by simp) hg
    · exact old [.delete j] (by simp) hg
  | deleterFrom q j => exact old [.push q j] (by simp) hg
  | push q j =>
    simp only [Pool.runFrame] at hg
    split at hg
    · exact old [.releasePool q] (by simp) hg
    · exact old [.releasePool q, .delete j] (by simp) hg
  | delete j => exact old [] (by simp) hg
  | releasePool q =>
    simp only [Pool.runFrame] at hg
    split at hg
    · exact old [] (by simp) hg
    · rw [Pool.setItems_setThread, Pool.setThread_setThread] at hg
      exact old [.destroyItems _] (by simp) hg
  | destroyItems is =>
    cases is with
    | nil => exact old [] (by simp) hg
    | cons j is => exact old [.deleter j, .destroyItems is] (by simp) hg

/-- When a call of the pool begins, nothing is lent yet. -/
theorem lend_of_public [Fintype Thread] {a : Pool.Action Thread} (ha : Public a) {s' : Pool.State Thread}
    (hs : Pool.step s a = some s') {k' : Thread} (hg : .lend p i ∈ s'.threads k') : .lend p i ∈ s.threads k' := by
  have begun {k : Thread} {l : List Pool.Frame} (hk : s.threads k = []) (hl : .lend p i ∉ l)
      (threads : s'.threads = update s.threads k l) : .lend p i ∈ s.threads k' :=
    ((Pool.threads_of_call hk threads).1 k' _ hg).resolve_right hl
  cases Pool.step_effect hs with
  | newPool | copyPool hp | copyHandle hx | dropHandle hk hx hmore => exact hg
  | create hk hp | run hk valid creates => cases ha
  | dropPool hk hp | get hk hp | eraseInvalid hk hp => exact begun hk (by simp) rfl
  | release hk hx hlast => exact begun hk (by simp) rfl
  | attach hk hx hp => exact begun hk (by simp) rfl
  | detach hk hx => exact begun hk (by simp) rfl

end Pool

section Kept

variable {W : Pool.Item → World} {s s' : State Thread DB} {i : Pool.Item} {k : Thread}

omit [Fintype Thread] [DecidableEq Thread] in
/-- A connection is as before, but for the timeout and the poll callback, or it is new. -/
theorem connsAfter_cases {opened : Option DB} {m : Member DB} (hm : m ∈ s.connsAfter k opened i) :
    (∃ m' ∈ s.conns i, m.state = m'.state) ∨ ∃ db, m = .init db := by
  unfold State.connsAfter at hm
  split at hm
  · split at hm
    · exact .inr ⟨_, (Option.some.inj hm).symm⟩
    · exact .inl ⟨m, hm, rfl⟩
  · split at hm
    · obtain ⟨m', hm', rfl⟩ := Option.map_eq_some_iff.1 hm
      exact .inl ⟨m', hm', rfl⟩
    · exact .inl ⟨m, hm, rfl⟩
  · exact .inl ⟨m, hm, rfl⟩

omit [Fintype Thread] [DecidableEq Thread] in
theorem connsAfter_of_ne {opened : Option DB} {m : Member DB} (hm : s.conns i = some m) (hi : i ≠ s.pool.created) :
    ∃ m', s.connsAfter k opened i = some m' ∧ m'.state = m.state := by
  unfold State.connsAfter
  split
  · exact ⟨m, by rwa [if_neg hi], rfl⟩
  · split
    · exact ⟨_, congrArg (Option.map _) hm, rfl⟩
    · exact ⟨m, hm, rfl⟩
  · exact ⟨m, hm, rfl⟩

theorem Member.Tidy.init (db : DB) : (Member.init db).Tidy := ⟨⟨rfl, rfl⟩, fun _ => rfl⟩

theorem Member.Tidy.congr {m m' : Member DB} (h : m.Tidy) (hm : m'.state = m.state) : m'.Tidy :=
  ⟨by rw [Abandoned, hm]; exact h.abandoned, by rw [IsIdle, hm]; exact h.plain⟩

omit [Fintype Thread] [DecidableEq Thread] in
/-- Who lends a connection has it, and nobody else does. -/
theorem State.Kept.not_borrowed (h : s.Kept) {p : Pool.PoolId} (hk : .lend p i ∈ s.pool.threads k) :
    s.pool.custody.Has (.thread k) i ∧ ¬ s.pool.custody.Borrowed i := by
  have hhas : s.pool.custody.Has (.thread k) i := List.mem_flatMap.2 ⟨_, hk, by simp [Pool.Frame.held]⟩
  refine ⟨hhas, fun ⟨b, hb⟩ => ?_⟩
  cases h.sound.exclusive _ _ i hhas hb

omit [Fintype Thread] [DecidableEq Thread] in
/-- A function is called on a borrowed connection. -/
theorem State.Kept.onMember (h : s.Kept) {x : Pool.Handle} {f : Member DB → Option (Member DB)}
    (hf : ∀ m m', s.conns x.item = some m → f m = some m' → m'.state.Registered ∧ m'.state.Owned)
    (hs : s.onMember x f = some s') : s'.Kept := by
  unfold State.onMember at hs
  split at hs
  · rename_i hx
    obtain ⟨m', hm', rfl⟩ := Option.map_eq_some_iff.1 hs
    obtain ⟨m, hm, hfm⟩ := Option.bind_eq_some_iff.1 hm'
    have hborrowed : s.pool.custody.Borrowed x.item := ⟨x.borrow, .inl hx⟩
    refine ⟨h.sound, fun i n hn => ?_, fun i hi n hn => ?_, fun k p i hk => ?_⟩
    · by_cases hi : i = x.item
      · subst hi
        obtain rfl : m' = n := by simpa using hn
        exact hf m m' hm hfm
      · exact h.ordered i n (by simpa [hi] using hn)
    · have hne : i ≠ x.item := fun heq => hi (heq ▸ hborrowed)
      exact h.tidy i hi n (by simpa [hne] using hn)
    · have hne : i ≠ x.item := fun heq => (h.not_borrowed hk).2 (heq ▸ hborrowed)
      simpa [hne] using h.lent k p i hk
  · cases hs

/-- A thread goes on. -/
theorem State.Kept.run (h : s.Kept) {opened : Option DB} (hs : step W s (.run k opened) = some s') : s'.Kept := by
  obtain ⟨pool, hpool, rfl⟩ := Option.map_eq_some_iff.1 hs
  obtain ⟨gone, hm⟩ := Pool.step_moves (d := False) False.elim hpool
  refine ⟨h.sound.move hm, fun i m hm => ?_, fun i hi m hm => ?_, fun k' p i hk' => ?_⟩
  · rcases connsAfter_cases hm with ⟨m', hm', heq⟩ | ⟨db, rfl⟩
    · rw [heq]
      exact h.ordered i m' hm'
    · exact ⟨.init db, .init db⟩
  · rcases connsAfter_cases hm with ⟨m', hm', heq⟩ | ⟨db, rfl⟩
    · refine (h.tidy i (fun hb => ?_) m' hm').congr heq
      rcases Pool.step_borrowed hpool hb with hb | ⟨_, _, ha, _⟩
      · exact hi hb
      · cases ha
    · exact .init db
  · simp only [Pool.step] at hpool
    split at hpool
    · cases hpool
    · rename_i f rest hk
      obtain rfl := Option.some.inj hpool
      have hlent (m : Member DB) (hm : s.conns i = some m) (hidle : m.IsIdle) (hi : i ≠ s.pool.created) :
          ∃ m, s.connsAfter k opened i = some m ∧ m.IsIdle := by
        obtain ⟨m', hm', heq⟩ := connsAfter_of_ne (k := k) hm hi
        exact ⟨m', hm', by rwa [Member.IsIdle, heq]⟩
      have hold {o : Pool.Owner Thread} (ho : s.pool.custody.Has o i) : i ≠ s.pool.created :=
        (h.sound.created o i ho).ne
      rcases lend_of_runFrame hk hk' with hk' | ⟨rfl, hcreates, rfl⟩ | ⟨rfl, hvalid⟩
      · obtain ⟨m, hm, hidle⟩ := h.lent k' p i hk'
        exact hlent m hm hidle (hold (h.not_borrowed hk').1)
      · obtain ⟨db, rfl⟩ := Option.isSome_iff_exists.1 hcreates
        exact ⟨.init db, by simp [State.connsAfter, hk], rfl⟩
      · have hhas : s.pool.custody.Has (.thread k) i :=
          List.mem_flatMap.2 ⟨_, by rw [hk]; exact List.mem_cons_self, by simp [Pool.Frame.held]⟩
        obtain ⟨m, hm, hidle⟩ := (Option.any_eq_true _ _).1 hvalid
        exact hlent m hm (of_decide_eq_true hidle) (hold hhas)

/-- Every step in order keeps the connections so. -/
theorem State.Kept.step (h : s.Kept) {a : Action Thread DB} (ha : InOrder s a)
    (hs : ConnectionPool.step W s a = some s') : s'.Kept := by
  cases a with
  | pool a =>
    simp only [ConnectionPool.step] at hs
    split at hs
    · rename_i hcall
      obtain ⟨pool, hpool, rfl⟩ := Option.map_eq_some_iff.1 hs
      obtain ⟨gone, hm⟩ := Pool.step_moves (d := False) False.elim hpool
      refine ⟨h.sound.move hm, h.ordered, fun i hi m hm => ?_, fun k p i hk => ?_⟩
      · by_cases hb : s.pool.custody.Borrowed i
        · -- the last handle was given up
          obtain ⟨k, x, rfl, _, rfl, hlast⟩ := (Pool.step_borrowed hpool hb).resolve_left hi
          exact ⟨hcall.2 hlast m hm, ha hlast m hm⟩
        · exact h.tidy i hb m hm
      · exact h.lent k p i (lend_of_public hcall.1 hpool hk)
    · cases hs
  | run k opened => exact h.run hs
  | call x c =>
    refine h.onMember (fun m m' hm hf => ?_) hs
    obtain ⟨hr, ho⟩ := h.ordered _ m hm
    split at hf
    · rename_i hl
      obtain ⟨t, ht, rfl⟩ := Option.map_eq_some_iff.1 hf
      exact ⟨registered_step hr ho (ha m hm) ⟨hl, ht⟩, owned_step ho ⟨hl, ht⟩⟩
    · cases hf
  | setTimeout x timeout =>
    refine h.onMember (fun m m' hm hf => ?_) hs
    obtain rfl := Option.some.inj hf
    exact h.ordered _ m hm
  | setPollCallback x poll =>
    refine h.onMember (fun m m' hm hf => ?_) hs
    obtain rfl := Option.some.inj hf
    exact h.ordered _ m hm
  | setPoolTimeout p timeout =>
    simp only [ConnectionPool.step] at hs
    split at hs
    · obtain rfl := Option.some.inj hs
      exact ⟨h.sound, h.ordered, h.tidy, h.lent⟩
    · cases hs
  | setPoolPollCallback p poll =>
    simp only [ConnectionPool.step] at hs
    split at hs
    · obtain rfl := Option.some.inj hs
      exact ⟨h.sound, h.ordered, h.tidy, h.lent⟩
    · cases hs

theorem Reaches.kept (h : Reaches W InOrder s) : s.Kept := by
  refine h.invariant ⟨Pool.Reaches.sound (.init : Pool.Reaches (fun _ _ => True) _), fun i m hm => ?_,
    fun i _ m hm => ?_, fun k p i hk => ?_⟩ fun s a s' hs ha hstep => hs.step ha hstep
  · cases hm
  · cases hm
  · cases hk

end Kept

/-! ### What `connection` returns -/

/-- The connection is as a borrower expects it. -/
structure Member.Clean (m : Member DB) (timeout : Option Nat) (poll : PollCallback) : Prop where
  idle : m.IsIdle
  block : m.state.conn.pg.session.block = none
  current : m.state.current = none
  direct : ∀ a, Exec.Returns (direct a) m.state
  plain : m.state.conn.pg.pipeline = false
  timeout : m.timeout = timeout
  poll : m.poll = poll

section Clean

variable {W : Pool.Item → World} {s s' : State Thread DB} {i : Pool.Item} {k : Thread} {p : Pool.PoolId}

omit [Fintype Thread] [DecidableEq Thread] in
theorem Member.IsIdle.block {m : Member DB} (h : m.IsIdle) : m.state.conn.pg.session.block = none := by
  unfold IsIdle PGconn.transactionStatus at h
  split at h
  · cases h
  · split at h
    · cases h
    · split at h
      · assumption
      · split at h <;> cases h

omit [Fintype Thread] [DecidableEq Thread] in
/-- When the objects are gone there is no current transaction. -/
theorem Member.Tidy.current {m : Member DB} (h : m.Tidy) (hr : m.state.Registered) : m.state.current = none := by
  refine LinkedStack.Spans.null hr fun a => ?_
  have hnone : m.state.object a = none := AList.lookup_eq_none.2 (by simp [AList.mem_keys, h.abandoned.1])
  simp [TaoPQ.State.next, hnone]

/-- In a run in order, `connection` returns a clean connection, whoever had it before. -/
theorem lent_clean (h : Reaches W InOrder s) {rest : List Pool.Frame} (hk : s.pool.threads k = .lend p i :: rest)
    {opened : Option DB} (hs : step W s (.run k opened) = some s') :
    ⟨s.pool.borrows, i⟩ ∈ s'.pool.handles ∧ ∃ m, s'.conns i = some m ∧ m.Clean (s.timeout p) (s.poll p) := by
  have hkept := h.kept
  have hmem : .lend p i ∈ s.pool.threads k := by simp [hk]
  obtain ⟨m, hm, hidle⟩ := hkept.lent k p i hmem
  have htidy := hkept.tidy i (hkept.not_borrowed hmem).2 m hm
  have hcurrent := htidy.current (hkept.ordered i m hm).1
  obtain ⟨pool, hpool, rfl⟩ := Option.map_eq_some_iff.1 hs
  simp only [Pool.step, hk, Pool.runFrame, Option.some.injEq] at hpool
  subst hpool
  refine ⟨List.mem_cons_self, { m with timeout := s.timeout p, poll := s.poll p }, ?_, hidle, hidle.block, hcurrent,
    fun a => ?_, htidy.plain hidle, rfl, rfl⟩
  · simp [State.connsAfter, hk, hm]
  · simp [direct, newTransactionBase, hcurrent]

end Clean

instance (s : State Thread DB) : (a : Action Thread DB) → Decidable (InOrder s a)
  | .call h c => inferInstanceAs (Decidable (∀ m ∈ s.conns h.item, c.InOrder m.state))
  | .pool (.dropHandle _ h) =>
    inferInstanceAs (Decidable (s.pool.Last h → ∀ m ∈ s.conns h.item, m.IsIdle → m.state.conn.pg.pipeline = false))
  | .pool .newPool | .pool (.copyPool _) | .pool (.dropPool _ _) | .pool (.create _ _) | .pool (.get _ _)
  | .pool (.eraseInvalid _ _) | .pool (.copyHandle _) | .pool (.attach _ _ _) | .pool (.detach _ _)
  | .pool (.run _ _ _) | .run _ _ | .setTimeout _ _ | .setPollCallback _ _ | .setPoolTimeout _ _
  | .setPoolPollCallback _ _ => inferInstanceAs (Decidable True)

/-- A connection is borrowed, used by the calls `cs` and returned, and is about to be lent again. -/
def reuse (cs : List (Call Unit)) : List (Action Unit Unit) :=
  let go := .run () (some ())
  [.pool .newPool, .pool (.get () 0), go, go, go, go] ++ cs.map (.call ⟨0, 0⟩) ++
    [.pool (.dropHandle () ⟨0, 0⟩), go, go, go, go, .pool (.get () 0), go, go]

/-- A connection that was used for a transaction is lent again. -/
theorem lent_clean_again : ∃ s s' : State Unit Unit, Reaches (fun _ => .calm) InOrder s ∧
    s.pool.threads () = [.lend 0 0, .releasePool 0] ∧ step (fun _ => .calm) s (.run () none) = some s' ∧
    ⟨s.pool.borrows, 0⟩ ∈ s'.pool.handles ∧ ∃ m, s'.conns 0 = some m ∧ m.Clean (s.timeout 0) (s.poll 0) := by
  obtain ⟨s, hr, hk, hs⟩ := Run.of_trace .init (step fun _ => .calm) InOrder
    (reuse [.transaction 1 .serializable .readWrite, .commit 1, .dropHandle 1])
    (P := fun s : State Unit Unit => s.pool.threads () = [.lend 0 0, .releasePool 0] ∧
      (step (fun _ => .calm) s (.run () none)).isSome = true) (by decide +kernel)
  obtain ⟨s', hs'⟩ := Option.isSome_iff_exists.1 hs
  exact ⟨s, s', hr, hk, hs', lent_clean hr hk hs'⟩

/-- What borrowers leave behind: after a rollback out of order, whose transaction is then ended by another object, the
current transaction dangles; and pipeline mode stays on. -/
theorem lent_unclean :
    (∃ s s' : State Unit Unit, Reaches (fun _ => .calm) (fun _ _ => True) s ∧
      s.pool.threads () = [.lend 0 0, .releasePool 0] ∧ step (fun _ => .calm) s (.run () none) = some s' ∧
      ∃ m, s'.conns 0 = some m ∧ m.state.current = some 1 ∧ m.state.object 1 = none) ∧
    ∃ s s' : State Unit Unit, Reaches (fun _ => .calm) (fun _ _ => True) s ∧
      s.pool.threads () = [.lend 0 0, .releasePool 0] ∧ step (fun _ => .calm) s (.run () none) = some s' ∧
      ∃ m, s'.conns 0 = some m ∧ m.state.conn.pg.pipeline = true := by
  have lent (cs : List (Call Unit)) (Q : Member Unit → Prop) [DecidablePred Q]
      (h : (Run.trace (step fun _ => .calm) (fun _ _ => True) (reuse cs) .init).any (fun s : State Unit Unit =>
        decide (s.pool.threads () = [.lend 0 0, .releasePool 0] ∧
          ((step (fun _ => .calm) s (.run () none)).any fun s' => (s'.conns 0).any fun m => decide (Q m)) = true)) =
        true) : ∃ s s' : State Unit Unit, Reaches (fun _ => .calm) (fun _ _ => True) s ∧
      s.pool.threads () = [.lend 0 0, .releasePool 0] ∧ step (fun _ => .calm) s (.run () none) = some s' ∧
      ∃ m, s'.conns 0 = some m ∧ Q m := by
    obtain ⟨s, hr, hk, hs⟩ := Run.of_trace (State.init : State Unit Unit) _ _ (reuse cs) h
    obtain ⟨s', hs', hm⟩ := (Option.any_eq_true _ _).1 hs
    obtain ⟨m, hm, hq⟩ := (Option.any_eq_true _ _).1 hm
    exact ⟨s, s', hr, hk, hs', m, hm, of_decide_eq_true hq⟩
  refine ⟨lent [.transaction 1 .defaultIsolationLevel .defaultAccessMode, .subtransaction 1 2, .rollback 1,
    .transaction 3 .defaultIsolationLevel .defaultAccessMode, .commit 3, .dropHandle 3, .dropHandle 2, .dropHandle 1]
    _ ?_, lent [.enterPipelineMode] _ ?_⟩
  · decide +kernel
  · decide +kernel

end TaoPQ.ConnectionPool
