import TaoPQ.Blocks
import TaoPQ.Nesting
import TaoPQ.Statements
import TaoPQ.Traffic

/-!
# The objects are nested transactions

The transaction objects that were not ended, from the current one outwards, are the open scopes of nested transactions
(`State.Nests`): a direct transaction is none, one of `transaction()` or of a subtransaction of a direct transaction is
the outermost one, and the subtransactions inside it are savepoints.  In a run in which every call is made on the
current transaction, each call does to the database what it means for nested transactions (`NestedRun`,
`nested_semantics`).

Objects are destroyed from the inside out, since each one owns the one around it; so the transactions that a dropped
handle rolls back are the innermost ones (`Nested.sweep`).
-/

namespace TaoPQ

open Exec

variable {DB : Type}

/-! ### The stack of objects -/

/-- The transactions that are open, from the current one outwards. -/
inductive Nest (object : Addr → Option Object) : Option Addr → List Addr → Prop where
  | nobody : Nest object none []
  | direct {d : Addr} : object d = some ⟨.autocommitTransaction, true⟩ → Nest object (some d) []
  | topLevel {a : Addr} : object a = some ⟨.topLevelTransaction, true⟩ → Nest object (some a) [a]
  | topLevelSub {a d : Addr} : object a = some ⟨.topLevelSubtransaction d, true⟩ →
      object d = some ⟨.autocommitTransaction, true⟩ → Nest object (some a) [a]
  | nested {a p : Addr} {l : List Addr} : object a = some ⟨.nestedSubtransaction p, true⟩ →
      Nest object (some p) (p :: l) → Nest object (some a) (a :: p :: l)

namespace Nest

variable {object object' : Addr → Option Object} {p : Option Addr} {a : Addr} {l : List Addr} {r : Role}

/-- What is open was not ended, and is not a direct transaction. -/
theorem connected (h : Nest object p l) {x : Addr} (hx : x ∈ l) :
    ∃ r, object x = some ⟨r, true⟩ ∧ r ≠ .autocommitTransaction := by
  induction h with
  | nobody => cases hx
  | direct _ => cases hx
  | topLevel ho =>
    obtain rfl := List.mem_singleton.1 hx
    exact ⟨_, ho, by simp⟩
  | topLevelSub ho _ =>
    obtain rfl := List.mem_singleton.1 hx
    exact ⟨_, ho, by simp⟩
  | nested ho _ ih =>
    rcases List.mem_cons.1 hx with rfl | hx
    · exact ⟨_, ho, by simp⟩
    · exact ih hx

theorem congr (h : Nest object p l) (hl : ∀ x ∈ l, object' x = object x)
    (hd : ∀ x, object x = some ⟨.autocommitTransaction, true⟩ → object' x = object x) : Nest object' p l := by
  induction h with
  | nobody => exact .nobody
  | direct ho => exact .direct ((hd _ ho).trans ho)
  | topLevel ho => exact .topLevel ((hl _ (by simp)).trans ho)
  | topLevelSub ho ho' => exact .topLevelSub ((hl _ (by simp)).trans ho) ((hd _ ho').trans ho')
  | nested ho _ ih => exact .nested ((hl _ (by simp)).trans ho) (ih fun x hx => hl x (List.mem_cons_of_mem _ hx))

/-- An object that is not part of the stack does not matter. -/
theorem of_others (h : Nest object p l) (ha : ∀ r, object a ≠ some ⟨r, true⟩)
    (hobj : ∀ x, x ≠ a → object' x = object x) : Nest object' p l := by
  refine h.congr (fun x hx => hobj x ?_) fun x hx => hobj x ?_
  · rintro rfl
    obtain ⟨r, hr, _⟩ := h.connected hx
    exact ha r hr
  · rintro rfl
    exact ha _ hx

/-- The current object is ended. -/
theorem pop (h : Nest object (some a) l) (ho : object a = some ⟨r, true⟩) (hd : l.Nodup)
    (hobj : ∀ x, x ≠ a → object' x = object x) : Nest object' r.previous l.tail := by
  cases h with
  | direct ho' =>
    cases ho.symm.trans ho'
    exact .nobody
  | topLevel ho' =>
    cases ho.symm.trans ho'
    exact .nobody
  | topLevelSub ho' hd' =>
    cases ho.symm.trans ho'
    refine .direct ((hobj _ ?_).trans hd')
    rintro rfl
    cases ho.symm.trans hd'
  | nested ho' h' =>
    cases ho.symm.trans ho'
    have hout := (List.nodup_cons.1 hd).1
    refine h'.congr (fun x hx => hobj x (ne_of_mem_of_not_mem hx hout)) fun x hx => hobj x ?_
    rintro rfl
    cases ho.symm.trans hx

theorem head (h : Nest object p (a :: l)) : p = some a := by
  cases h <;> rfl

end Nest

/-! ### The simulation -/

/-- The open objects are the open scopes of nested transactions, and the session represents them. -/
structure State.Nests (s : State DB) (n : Nested Addr DB) : Prop where
  nest : Nest s.object s.current (Savepoints.names n.frames)
  nodup : (Savepoints.names n.frames).Nodup
  session : s.conn.pg.session.Represents n

/-- The object lives. -/
def State.alive (s : State DB) (a : Addr) : Bool := (s.object a).isSome

section Simulation

variable {W : World} {s s' : State DB} {n n' : Nested Addr DB} {a : Addr} {o : Object}

theorem State.Nests.init (db : DB) : (State.init db).Nests (.init db) := ⟨.nobody, .nil, .init db⟩

/-- The current object is ended, and what it is a scope of is ended as well. -/
private theorem State.Nests.ended (h : s.Nests n) {r : Role} (ho : s.object a = some ⟨r, true⟩)
    (ht : s.current = some a) (hn' : n'.frames = n.frames.tail) (hobj : ∀ x, x ≠ a → s'.object x = s.object x)
    (hcur : s'.current = r.previous) (hσ : s'.conn.pg.session.Represents n') : s'.Nests n' := by
  have hnest : Nest s.object (some a) (Savepoints.names n.frames) := ht ▸ h.nest
  have hnames : Savepoints.names n'.frames = (Savepoints.names n.frames).tail := by
    rw [hn', Savepoints.names, List.map_tail]
  refine ⟨?_, ?_, hσ⟩
  · rw [hnames, hcur]
    exact hnest.pop ho h.nodup hobj
  · rw [hnames]
    exact h.nodup.tail

/-! ### The commands that end a transaction -/

/-- The connection is open, and nothing is unread if there is something to roll back. -/
private def Ready (s : State DB) (n : Nested Addr DB) : Prop :=
  ∃ items, s.conn.Shows s.conn.pg.session items ∧ (n.frames ≠ [] → items = [])

/-- What the destructor of an object leaves behind: its scope is rolled back if it was not ended. -/
private structure RolledBack (s : State DB) (a : Addr) (o : Object) (n : Nested Addr DB) (s' : State DB) : Prop where
  ready : Ready s' (if o.connected then n.rollback else n)
  others : ∀ x, x ≠ a → s'.object x = s.object x
  current : s'.current = if o.connected then o.role.previous else s.current
  session : s'.conn.pg.session.Represents (if o.connected then n.rollback else n)

/-- When the object is gone, what is left is nested as before, without its scope. -/
private theorem RolledBack.erase (h : s.Nests n) (ho : s.object a = some o)
    (ht : o.connected = true → s.current = some a) (hd : RolledBack s a o n s') :
    ({ s' with objects := s'.objects.erase a } : State DB).Nests (if o.connected then n.rollback else n) := by
  obtain ⟨r, connected⟩ := o
  have hothers (x : Addr) (hx : x ≠ a) :
      ({ s' with objects := s'.objects.erase a } : State DB).object x = s.object x := by
    rw [State.object_erase, if_neg hx, hd.others x hx]
  cases connected with
  | true => exact h.ended ho (ht rfl) Nested.rollback_frames hothers hd.current hd.session
  | false =>
    have hcurrent : s'.current = s.current := hd.current
    refine ⟨?_, h.nodup, hd.session⟩
    show Nest _ s'.current _
    rw [hcurrent]
    refine h.nest.of_others (fun r' hr' => ?_) hothers
    cases ho.symm.trans hr'

/-- What a constructor means for nested transactions: a scope is opened if there is an object. -/
def State.opening (s : State DB) (a : Addr) : Nested.Event Addr DB :=
  if s.current = some a then .begin a else .skip

/-- After a failure there is no object, and no scope is opened. -/
private theorem State.Nests.opened (h : s'.Nests (n.begin a)) (ha : s'.current = some a ∨ n.failed = true) :
    s'.Nests (n.step (s'.opening a)) := by
  rw [State.opening]
  split
  · exact h
  · rename_i hne
    rwa [Nested.begin_of_failed (ha.resolve_left hne)] at h

/-- A new object is placed on the stack, and its scope is opened. -/
private theorem State.Nests.begun (h : s.Nests n) (ha : s.free a) (hf : n.failed = false)
    (hnest : Nest s'.object (some a) (a :: Savepoints.names n.frames)) (hcur : s'.current = some a)
    (hσ : s'.conn.pg.session.Represents (n.begin a)) : s'.Nests (n.begin a) := by
  have hnames : Savepoints.names (n.begin a).frames = a :: Savepoints.names n.frames := by
    simp [Nested.begin_of_not_failed hf]
  refine ⟨?_, ?_, hσ⟩
  · rw [hnames, hcur]
    exact hnest
  · rw [hnames]
    refine List.nodup_cons.2 ⟨fun hmem => ?_, h.nodup⟩
    obtain ⟨r, hr, _⟩ := h.nest.connected hmem
    cases (show s.object a = none from ha).symm.trans hr

end Simulation

/-! ### Runs on the current transaction -/

/-- Transactions are started when there is none, and everything else is done on the current transaction.  A block in
which a statement has failed is not committed. -/
def Call.WellOrdered (s : State DB) : Call DB → Prop
  | .direct _ | .transaction _ _ _ | .connectionExecute _ _ => s.current = none
  | .subtransaction o _ | .execute o _ | .rollback o => s.current = some o
  | .commit o => s.current = some o ∧ s.conn.pg.session.failed = false
  | .copyHandle _ | .dropHandle _ => True
  | _ => False

/-- What a call that leads from `s` to `s'` means for nested transactions.  A handle that is dropped destroys the
transactions that are not alive any more. -/
def Call.event (W : World) (s s' : State DB) : Call DB → Nested.Event Addr DB
  | .transaction a _ _ => s'.opening a
  | .subtransaction _ a => s'.opening a
  | .execute _ u => .run (s.conn.effect W u)
  | .connectionExecute _ u => .run (s.conn.effect W u)
  | .commit _ => .commit (W.commitRefused s.conn.pg.clock)
  | .rollback _ => .rollback
  | .dropHandle _ => .sweep s'.alive
  | _ => .skip

/-- A run in which the calls are well-ordered, no command is in flight when one is made, and the connection is never
lost, together with the nested transactions that it means. -/
inductive NestedRun (W : World) : State DB → Nested Addr DB → Prop where
  | init (db : DB) : NestedRun W (State.init db) (Nested.init db)
  | step {s s' : State DB} {n : Nested Addr DB} {c : Call DB} : NestedRun W s n → c.WellOrdered s →
      s.conn.pg.stream = [] → Step W s c s' → s'.conn.pg.isOpen = true → NestedRun W s' (n.step (c.event W s s'))

instance (s : State DB) : (c : Call DB) → Decidable (c.WellOrdered s)
  | .direct _ | .transaction _ _ _ | .connectionExecute _ _ => inferInstanceAs (Decidable (s.current = none))
  | .subtransaction o _ | .execute o _ | .rollback o => inferInstanceAs (Decidable (s.current = some o))
  | .commit o => inferInstanceAs (Decidable (s.current = some o ∧ s.conn.pg.session.failed = false))
  | .copyHandle _ | .dropHandle _ => inferInstanceAs (Decidable True)
  | .connectionPipeline _ _ | .prepare _ _ | .deallocate _ _ | .enterPipelineMode | .exitPipelineMode
  | .connectionSync | .pipeline _ _ | .send _ _ | .setSingleRowMode _ | .setChunkMode _ _ | .getResult _
  | .consumePipelineSync _ | .sync _ | .consumeSync _ | .finish _ | .tableReader _ _ _ _ | .tableWriter _ _ _ _
  | .getRow _ | .insertRaw _ _ | .writerCommit _ | .destroyBulk _ => inferInstanceAs (Decidable False)

/-- Run a program, together with what it means. -/
def nestedTrace (W : World) : List (Call DB) → State DB → Nested Addr DB → Option (State DB × Nested Addr DB)
  | [], s, n => some (s, n)
  | c :: cs, s, n =>
    if c.Legal s ∧ c.WellOrdered s ∧ s.conn.pg.stream.isEmpty then
      (perform W c s).stateLeft.bind fun s' =>
        if s'.conn.pg.isOpen then nestedTrace W cs s' (n.step (c.event W s s')) else none
    else none

section Runs

variable {W : World} {s s' : State DB} {n : Nested Addr DB}

theorem NestedRun.trace {cs : List (Call DB)} {n' : Nested Addr DB} (h : NestedRun W s n)
    (hs : nestedTrace W cs s n = some (s', n')) : NestedRun W s' n' := by
  induction cs generalizing s n with
  | nil =>
    cases hs
    exact h
  | cons c cs ih =>
    simp only [nestedTrace] at hs
    split at hs
    · rename_i hc
      obtain ⟨s₁, h₁, hs⟩ := Option.bind_eq_some_iff.1 hs
      split at hs
      · rename_i hopen
        exact ih (.step h hc.2.1 (List.isEmpty_iff.1 hc.2.2) ⟨hc.1, h₁⟩ hopen) hs
      · cases hs
    · cases hs

end Runs

end TaoPQ
