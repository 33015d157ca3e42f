import TaoPQ.Bulk

/-!
# Programs

A program is a sequence of calls of the public functions (`Call`), on handles that it holds.  `Step` is one call:
which object lies at which address is up to the allocator, which only hands out free addresses.  A call that has
undefined behaviour has no successor.
-/

namespace TaoPQ

variable {DB : Type}

/-- The calls of a program.  Addresses `a`, `d`, `g` are those of new objects, `b` is that of a reader or writer. -/
inductive Call (DB : Type) where
  | direct (a : Addr)
  | transaction (a : Addr) (il : IsolationLevel) (am : AccessMode)
  | connectionPipeline (d a : Addr)
  | connectionExecute (d : Addr) (u : Statement DB)
  | prepare (name : String) (valid : Bool)
  | deallocate (d : Addr) (name : String)
  | enterPipelineMode
  | exitPipelineMode
  | connectionSync
  | subtransaction (o a : Addr)
  | pipeline (o a : Addr)
  | send (o : Addr) (u : Statement DB)
  | setSingleRowMode (o : Addr)
  | setChunkMode (o : Addr) (rows : Int)
  | getResult (o : Addr)
  | consumePipelineSync (o : Addr)
  | execute (o : Addr) (u : Statement DB)
  | commit (o : Addr)
  | rollback (o : Addr)
  | sync (o : Addr)
  | consumeSync (o : Addr)
  | finish (o : Addr)
  | copyHandle (o : Addr)
  | dropHandle (o : Addr)
  | tableReader (o g : Addr) (b : Nat) (u : Statement DB)
  | tableWriter (o g : Addr) (b : Nat) (u : Statement DB)
  | getRow (b : Nat)
  | insertRaw (b : Nat) (data : Chunk)
  | writerCommit (b : Nat)
  | destroyBulk (b : Nat)

def ignore {α : Type} (x : Prog DB α) : Prog DB Unit := do
  let _ ← x

/-- The function behind a call. -/
def perform (W : World) : Call DB → Prog DB Unit
  | .direct a => direct a
  | .transaction a il am => transaction W a il am
  | .connectionPipeline d a => connectionPipeline W d a
  | .connectionExecute d u => ignore (connectionExecute W d (.user u))
  | .prepare name valid => onConnection (Connection.prepare W name valid)
  | .deallocate d name => deallocate W d name
  | .enterPipelineMode => onConnection Connection.enterPipelineMode
  | .exitPipelineMode => onConnection Connection.exitPipelineMode
  | .connectionSync => onConnection Connection.pipelineSync
  | .subtransaction o a => subtransaction W o a
  | .pipeline o a => pipeline o a
  | .send o u => send W o (.user u)
  | .setSingleRowMode o => setSingleRowMode o
  | .setChunkMode o rows => setChunkMode o rows
  | .getResult o => ignore (getResult W o)
  | .consumePipelineSync o => consumePipelineSync W o
  | .execute o u => ignore (execute W o (.user u))
  | .commit o => commit W o
  | .rollback o => rollback W o
  | .sync o => pipelineSync o
  | .consumeSync o => consumeSync W o
  | .finish o => finish W o
  | .copyHandle o => hold o
  | .dropHandle o => dropHandle W o
  | .tableReader o g b u => tableReader W o g b u
  | .tableWriter o g b u => tableWriter W o g b u
  | .getRow b => ignore (getRawData W b)
  | .insertRaw b data => insertRaw W b data
  | .writerCommit b => ignore (writerCommit W b)
  | .destroyBulk b => destroyBulk W b

namespace State

/-- The program holds a handle to a transaction. -/
def holdsTransaction (s : State DB) (o : Addr) : Prop :=
  o ∈ s.held ∧ ∀ x, s.object o = some x → x.role.isPipeline = false

/-- The program holds a handle to a pipeline. -/
def holdsPipeline (s : State DB) (o : Addr) : Prop :=
  o ∈ s.held ∧ ∀ x, s.object o = some x → x.role.isPipeline = true

/-- The allocator may place a new object there. -/
def free (s : State DB) (a : Addr) : Prop := s.object a = none

end State

/-- A call that the language and the allocator allow: functions are called on handles that the program holds and
that have them, and new objects lie at free addresses. -/
def Call.Legal (s : State DB) : Call DB → Prop
  | .direct a => s.free a
  | .transaction a _ _ => s.free a
  | .connectionPipeline d a => s.free d ∧ s.free a ∧ d ≠ a
  | .connectionExecute d _ => s.free d
  | .prepare _ _ => True
  | .deallocate d _ => s.free d
  | .enterPipelineMode => True
  | .exitPipelineMode => True
  | .connectionSync => True
  | .subtransaction o a => s.holdsTransaction o ∧ s.free a
  | .pipeline o a => s.holdsTransaction o ∧ s.free a
  | .send o _ => o ∈ s.held
  | .setSingleRowMode o => o ∈ s.held
  | .setChunkMode o _ => o ∈ s.held
  | .getResult o => o ∈ s.held
  | .consumePipelineSync o => o ∈ s.held
  | .execute o _ => s.holdsTransaction o
  | .commit o => s.holdsTransaction o
  | .rollback o => s.holdsTransaction o
  | .sync o => s.holdsPipeline o
  | .consumeSync o => s.holdsPipeline o
  | .finish o => s.holdsPipeline o
  | .copyHandle o => o ∈ s.held
  | .dropHandle o => o ∈ s.held
  | .tableReader o g b _ => s.holdsTransaction o ∧ s.free g ∧ s.bulk b = none
  | .tableWriter o g b _ => s.holdsTransaction o ∧ s.free g ∧ s.bulk b = none
  | .getRow b => ∃ k, s.bulk b = some k ∧ k.reader = true
  | .insertRaw b _ => ∃ k, s.bulk b = some k ∧ k.reader = false
  | .writerCommit b => ∃ k, s.bulk b = some k ∧ k.reader = false
  | .destroyBulk b => (s.bulk b).isSome

instance (s : State DB) (o : Addr) : Decidable (s.holdsTransaction o) :=
  decidable_of_iff (o ∈ s.held ∧ (s.object o).all (fun x => x.role.isPipeline == false) = true)
    (by simp [State.holdsTransaction, Option.all_eq_true])

instance (s : State DB) (o : Addr) : Decidable (s.holdsPipeline o) :=
  decidable_of_iff (o ∈ s.held ∧ (s.object o).all (fun x => x.role.isPipeline == true) = true)
    (by simp [State.holdsPipeline, Option.all_eq_true])

instance (s : State DB) (a : Addr) : Decidable (s.free a) := inferInstanceAs (Decidable (s.object a = none))

instance (s : State DB) (b : Nat) (r : Bool) : Decidable (∃ k, s.bulk b = some k ∧ k.reader = r) :=
  decidable_of_iff ((s.bulk b).any (fun k => k.reader == r) = true) (by simp [Option.any_eq_true])

instance (s : State DB) : (c : Call DB) → Decidable (c.Legal s)
  | .direct a => inferInstanceAs (Decidable (s.free a))
  | .transaction a _ _ => inferInstanceAs (Decidable (s.free a))
  | .connectionPipeline d a => inferInstanceAs (Decidable (s.free d ∧ s.free a ∧ d ≠ a))
  | .connectionExecute d _ => inferInstanceAs (Decidable (s.free d))
  | .prepare _ _ => inferInstanceAs (Decidable True)
  | .deallocate d _ => inferInstanceAs (Decidable (s.free d))
  | .enterPipelineMode => inferInstanceAs (Decidable True)
  | .exitPipelineMode => inferInstanceAs (Decidable True)
  | .connectionSync => inferInstanceAs (Decidable True)
  | .subtransaction o a => inferInstanceAs (Decidable (s.holdsTransaction o ∧ s.free a))
  | .pipeline o a => inferInstanceAs (Decidable (s.holdsTransaction o ∧ s.free a))
  | .send o _ => inferInstanceAs (Decidable (o ∈ s.held))
  | .setSingleRowMode o => inferInstanceAs (Decidable (o ∈ s.held))
  | .setChunkMode o _ => inferInstanceAs (Decidable (o ∈ s.held))
  | .getResult o => inferInstanceAs (Decidable (o ∈ s.held))
  | .consumePipelineSync o => inferInstanceAs (Decidable (o ∈ s.held))
  | .execute o _ => inferInstanceAs (Decidable (s.holdsTransaction o))
  | .commit o => inferInstanceAs (Decidable (s.holdsTransaction o))
  | .rollback o => inferInstanceAs (Decidable (s.holdsTransaction o))
  | .sync o => inferInstanceAs (Decidable (s.holdsPipeline o))
  | .consumeSync o => inferInstanceAs (Decidable (s.holdsPipeline o))
  | .finish o => inferInstanceAs (Decidable (s.holdsPipeline o))
  | .copyHandle o => inferInstanceAs (Decidable (o ∈ s.held))
  | .dropHandle o => inferInstanceAs (Decidable (o ∈ s.held))
  | .tableReader o g b _ => inferInstanceAs (Decidable (s.holdsTransaction o ∧ s.free g ∧ s.bulk b = none))
  | .tableWriter o g b _ => inferInstanceAs (Decidable (s.holdsTransaction o ∧ s.free g ∧ s.bulk b = none))
  | .getRow b => inferInstanceAs (Decidable (∃ k, s.bulk b = some k ∧ k.reader = true))
  | .insertRaw b _ => inferInstanceAs (Decidable (∃ k, s.bulk b = some k ∧ k.reader = false))
  | .writerCommit b => inferInstanceAs (Decidable (∃ k, s.bulk b = some k ∧ k.reader = false))
  | .destroyBulk b => inferInstanceAs (Decidable ((s.bulk b).isSome = true))

/-- One call of a program, after which `s'` is the state, whether the call returned or threw. -/
def Step (W : World) (s : State DB) (c : Call DB) (s' : State DB) : Prop :=
  c.Legal s ∧ (perform W c s).stateLeft = some s'

/-- The states reached from a new connection by a program that makes only the calls that `ok` accepts. -/
inductive Reaches (W : World) (ok : State DB → Call DB → Prop) : State DB → Prop where
  | init (db : DB) : Reaches W ok (State.init db)
  | step {s s' : State DB} {c : Call DB} : Reaches W ok s → ok s c → Step W s c s' → Reaches W ok s'

/-- The states that any program can reach. -/
abbrev Reachable (W : World) : State DB → Prop := Reaches W fun _ _ => True

/-- Run a program of calls that `ok` accepts. -/
def trace (W : World) (ok : State DB → Call DB → Prop) [∀ s c, Decidable (ok s c)] :
    List (Call DB) → State DB → Option (State DB)
  | [], s => some s
  | c :: cs, s => if c.Legal s ∧ ok s c then (perform W c s).stateLeft.bind (trace W ok cs) else none

theorem Reaches.trace {W : World} {ok : State DB → Call DB → Prop} [∀ s c, Decidable (ok s c)]
    {cs : List (Call DB)} {s s' : State DB} (h : Reaches W ok s) (hs : TaoPQ.trace W ok cs s = some s') :
    Reaches W ok s' := by
  induction cs generalizing s with
  | nil => exact Option.some.inj hs ▸ h
  | cons c cs ih =>
    simp only [TaoPQ.trace] at hs
    split at hs
    · rename_i hc
      obtain ⟨s₁, h₁, hs⟩ := Option.bind_eq_some_iff.1 hs
      exact ih (.step h hc.2 ⟨hc.1, h₁⟩) hs
    · cases hs

/-- A state with a property is reached when running a program leads to one. -/
theorem Reaches.of_trace (W : World) (ok : State DB → Call DB → Prop) [∀ s c, Decidable (ok s c)]
    (cs : List (Call DB)) (db : DB) {P : State DB → Prop} [DecidablePred P]
    (h : (TaoPQ.trace W ok cs (State.init db)).any (fun s => decide (P s)) = true) : ∃ s, Reaches W ok s ∧ P s := by
  obtain ⟨s, hs, hp⟩ := (Option.any_eq_true _ _).1 h
  exact ⟨s, (Reaches.init db).trace hs, of_decide_eq_true hp⟩

/-- What holds of a new connection and is kept by every accepted call holds in every state that is reached. -/
theorem Reaches.invariant {W : World} {ok : State DB → Call DB → Prop} {I : State DB → Prop}
    (hinit : ∀ db, I (State.init db))
    (hstep : ∀ s c s', I s → ok s c → Step W s c s' → I s') {s : State DB} (h : Reaches W ok s) : I s := by
  induction h with
  | init db => exact hinit db
  | step _ hok hs ih => exact hstep _ _ _ ih hok hs

theorem Reaches.mono {W : World} {ok ok' : State DB → Call DB → Prop} (hok : ∀ s c, ok s c → ok' s c)
    {s : State DB} (h : Reaches W ok s) : Reaches W ok' s := by
  induction h with
  | init db => exact .init db
  | step _ h hs ih => exact .step ih (hok _ _ h) hs

/-- A connection just opened, on which `direct` was called. -/
def State.directOnly (db : DB) (a : Addr) : State DB :=
  { State.init db with current := some a, objects := AList.insert a ⟨.autocommitTransaction, true⟩ ∅, held := [a] }

theorem Reaches.directOnly {W : World} {ok : State DB → Call DB → Prop} (db : DB) (a : Addr)
    (hok : ok (State.init db) (.direct a)) : Reaches W ok (State.directOnly db a) :=
  .step (.init db) hok ⟨rfl, rfl⟩

end TaoPQ
