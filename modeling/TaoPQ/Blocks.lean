import TaoPQ.Answers
import TaoPQ.Registration

/-!
# Transaction blocks and their owners

A transaction block on the server belongs to an object: the `top_level_transaction` or `top_level_subtransaction`
that has sent `START TRANSACTION`.  As long as the block is open, its owner is on the stack of objects that were not
ended (`State.Sound`).  The owner leaves the stack when it is committed, rolled back or destroyed, and the command
that ends the block is then only sent if nothing is unread; `Call.Clean` says when this is so.

Statements of the user and the commands for savepoints neither open nor end a block (`PGconn.KeepsBlock`).
-/

namespace TaoPQ

open Exec

variable {DB : Type}

/-! ### What neither opens nor ends a block -/

namespace Session

variable (σ : Session DB)

theorem fail_block : σ.fail.block.isSome = σ.block.isSome := by simp [fail]

theorem run_block (effect : DB → Option DB) (ok : PGresult) : (σ.run effect ok).1.block.isSome = σ.block.isSome := by
  unfold run
  rcases hb : σ.block with _ | b
  · cases effect σ.committed <;> simp [hb]
  · by_cases hf : b.failed = true
    · simp [hf, hb]
    · rcases he : effect b.content with _ | db <;> simp [hf, he, fail, hb]

theorem deallocate_block (name : String) : (σ.deallocate name).1.block.isSome = σ.block.isSome := by
  unfold deallocate
  repeat' split
  · rfl
  · rfl
  · exact σ.fail_block

/-- The commands for savepoints leave the block as it is. -/
theorem control_block {k : Control} (hk : ∃ n, k = .savepoint n ∨ k = .releaseSavepoint n ∨ k = .rollbackTo n)
    (refused : Bool) : (σ.control refused k).1.block.isSome = σ.block.isSome := by
  obtain ⟨n, rfl | rfl | rfl⟩ := hk
  · rcases hb : σ.block with _ | b
    · simp [control, hb]
    · cases hf : b.failed <;> simp [control, hb, hf]
  · rcases hb : σ.block with _ | b
    · simp [control, hb]
    · cases hf : b.failed with
      | true => simp [control, hb, hf]
      | false => rcases hs : Savepoints.since n b.saves with _ | p <;> simp [control, hb, hf, hs, fail]
  · rcases hb : σ.block with _ | b
    · simp [control, hb]
    · rcases hs : Savepoints.since n b.saves with _ | p <;> simp [control, hb, hs, fail]

/-- The block is ended by either command, also when the COMMIT is refused. -/
theorem control_end {k : Control} (hk : k = .commitTransaction ∨ k = .rollbackTransaction) (refused : Bool) :
    (σ.control refused k).1.block = none := by
  rcases hk with rfl | rfl
  · rcases hb : σ.block with _ | b
    · simp [control, hb]
    · cases hf : b.failed <;> cases refused <;> simp [control, hb, hf]
  · rfl

end Session

/-- The commands that neither open nor end a block. -/
def Command.KeepsBlock : Command DB → Prop
  | .control k => ∃ n, k = .savepoint n ∨ k = .releaseSavepoint n ∨ k = .rollbackTo n
  | _ => True

namespace PGconn

/-- No transaction block was opened or ended, a connection that was lost stays lost, and pipeline mode is not
entered. -/
structure KeepsBlock (c c' : PGconn DB) : Prop where
  lost : c.isOpen = false → c'.isOpen = false
  block : c'.session.block.isSome = c.session.block.isSome
  plain : c.pipeline = false → c'.pipeline = false

namespace KeepsBlock

variable {c : PGconn DB}

theorem refl (c : PGconn DB) : c.KeepsBlock c := ⟨id, rfl, id⟩

theorem trans {c' c'' : PGconn DB} (h : c.KeepsBlock c') (h' : c'.KeepsBlock c'') : c.KeepsBlock c'' :=
  ⟨fun hc => h'.lost (h.lost hc), h'.block.trans h.block, fun hc => h'.plain (h.plain hc)⟩

theorem of_session {c' : PGconn DB} (ho : c'.isOpen = c.isOpen) (hp : c'.pipeline = c.pipeline)
    (hb : c'.session.block.isSome = c.session.block.isSome) :
    c.KeepsBlock c' := ⟨fun h => ho.trans h, hb, fun h => hp.trans h⟩

theorem runUser (u : Body DB) : c.KeepsBlock (c.runUser u).1 := by
  cases u with
  | empty => exact refl c
  | command effect n => exact of_session rfl rfl (c.session.run_block _ _)
  | query effect columns rows => exact of_session rfl rfl (c.session.run_block _ _)
  | copyFrom load rows =>
    simp only [PGconn.runUser]
    split <;> exact refl c
  | copyTo columns rows completes =>
    simp only [PGconn.runUser]
    split
    · exact refl c
    · split
      · exact refl c
      · exact of_session rfl rfl c.session.fail_block

theorem run (W : World) (byName : Bool) {cmd : Command DB} (hcmd : cmd.KeepsBlock) :
    c.KeepsBlock (c.run W byName cmd).1 := by
  cases cmd with
  | control k => exact of_session rfl rfl (Session.control_block _ hcmd _)
  | deallocate name => exact of_session rfl rfl (Session.deallocate_block _ name)
  | user u =>
    simp only [PGconn.run]
    split
    · exact of_session rfl rfl c.session.fail_block
    · exact runUser _

theorem send (W : World) (byName : Bool) {cmd : Command DB} (hcmd : cmd.KeepsBlock) :
    c.KeepsBlock (c.send W byName cmd).1 := by
  unfold PGconn.send
  have h := run (c := c) W byName hcmd
  generalize c.run W byName cmd = answer at h ⊢
  obtain ⟨c', items⟩ := answer
  dsimp only
  repeat' split
  all_goals first
    | exact refl c
    | exact of_session rfl rfl rfl
    | exact h.trans (of_session rfl rfl rfl)

theorem getResult : c.KeepsBlock (c.getResult).1 := by
  unfold PGconn.getResult
  repeat' split
  all_goals first
    | exact refl c
    | exact of_session rfl rfl rfl

theorem getCopyData : c.KeepsBlock (c.getCopyData).1 := by
  unfold PGconn.getCopyData
  repeat' split
  all_goals exact of_session rfl rfl rfl

theorem putCopyEnd (m : Option String) : c.KeepsBlock (c.putCopyEnd m).1 := by
  unfold PGconn.putCopyEnd
  repeat' split
  · exact refl c
  · exact of_session rfl rfl c.session.fail_block
  · rename_i hr
    exact of_session rfl rfl ((congrArg (fun p => p.1.block.isSome) hr).symm.trans (c.session.run_block _ _))
  · exact refl c

theorem cancel (W : World) : c.KeepsBlock (c.cancel W).1 := by
  unfold PGconn.cancel
  repeat' split
  · exact of_session rfl rfl rfl
  · exact of_session rfl rfl rfl
  · exact of_session rfl rfl c.session.fail_block
  · exact of_session rfl rfl rfl

end KeepsBlock

end PGconn

namespace Connection

/-- The same for a connection. -/
def KeepsBlock (c c' : Connection DB) : Prop := c.pg.KeepsBlock c'.pg

instance : IsPreorder (Connection DB) KeepsBlock where
  refl c := .refl c.pg
  trans _ _ _ := .trans

variable {W : World}

theorem reads_keepBlock : ReadsFollow W (@KeepsBlock DB) where
  wait := by
    intro c
    unfold wp wait
    cases W.wait c.pg.clock with
    | ready => exact .of_session rfl rfl rfl
    | timeout => exact ⟨fun _ => rfl, rfl, id⟩
    | broken => exact ⟨fun _ => rfl, rfl, id⟩
    | handler => exact .of_session rfl rfl rfl
  handleNotifications := by
    intro c
    unfold wp handleNotifications
    split <;> exact .of_session rfl rfl rfl
  libpqGetResult _ := .getResult
  libpqGetCopyData _ := .getCopyData
  libpqPutCopyEnd m _ := .putCopyEnd m
  cancel := .bind (fun _ => .cancel W) fun _ => .ite (.pure _) (.throw _)

theorem sendParams_keepsBlock {cmd : Command DB} (hcmd : cmd.KeepsBlock) : Follows KeepsBlock (sendParams W cmd) :=
  .bind .get fun _ => .bind (fun _ => .send W _ hcmd) fun _ => .ite (.pure _) (.throw _)

end Connection

/-- Only the connection has changed, and no transaction block was opened or ended. -/
def SameBlock (s s' : State DB) : Prop := ∃ c, s' = { s with conn := c } ∧ s.conn.KeepsBlock c

instance : IsPreorder (State DB) SameBlock where
  refl s := ⟨s.conn, rfl, .refl _⟩
  trans := by
    rintro s _ _ ⟨c, rfl, h⟩ ⟨c', rfl, h'⟩
    exact ⟨c', rfl, h.trans h'⟩

section SameBlock

variable {W : World}

private theorem check_sameBlock (a : Addr) : Follows SameBlock (checkCurrentTransaction a : Prog DB Unit) := by
  intro s
  rw [wp_checkCurrentTransaction]
  exact ⟨fun _ _ => ⟨fun _ => refl (r := SameBlock) s, fun _ => refl (r := SameBlock) s⟩, fun _ => trivial⟩

private theorem onConnection_sameBlock {α : Type} {x : Exec (Connection DB) Exn α}
    (h : Follows Connection.KeepsBlock x) : Follows SameBlock (onConnection x) :=
  h.zoom fun _ c hc => ⟨c, rfl, hc⟩

theorem send_sameBlock (a : Addr) (cmd : Command DB) (hcmd : cmd.KeepsBlock) : Follows SameBlock (send W a cmd) :=
  .bind (check_sameBlock a) fun _ => onConnection_sameBlock (Connection.sendParams_keepsBlock hcmd)

theorem getResult_sameBlock (a : Addr) : Follows SameBlock (getResult W a : Prog DB PGresult) :=
  .bind (check_sameBlock a) fun _ => onConnection_sameBlock Connection.reads_keepBlock.fetchResult

theorem execute_sameBlock (a : Addr) (cmd : Command DB) (hcmd : cmd.KeepsBlock) :
    Follows SameBlock (execute W a cmd) :=
  .bind (send_sameBlock a cmd hcmd) fun _ => getResult_sameBlock a

end SameBlock

/-! ### Owners of blocks -/

namespace State

/-- The object has opened a transaction block, and has not ended it. -/
def ActiveOwner (s : State DB) (a : Addr) : Prop :=
  ∃ o, s.object a = some o ∧ o.connected = true ∧ o.role.ownsBlock = true

/-- The objects that handles keep alive, directly or through other objects. -/
inductive KeptBy (held : List Addr) (object : Addr → Option Object) : Addr → Prop where
  | handle {a : Addr} : a ∈ held → KeptBy held object a
  | previous {a x : Addr} {o : Object} :
      KeptBy held object x → object x = some o → o.role.previous = some a → KeptBy held object a

/-- A handle of the program keeps the object alive. -/
def Kept (s : State DB) : Addr → Prop := KeptBy s.held s.object

/-- A block that is open on the server has an owner on the stack, as long as the connection is not lost. -/
structure Sound (s : State DB) : Prop where
  registered : s.Registered
  transactions : ∀ a o, s.object a = some o → o.role.isPipeline = false
  plain : s.conn.pg.isOpen = true → s.conn.pg.pipeline = false
  owner : s.conn.pg.isOpen = true → s.conn.pg.session.block.isSome = true → ∃ a, s.ActiveOwner a

/-- While something is unread, no owner of a block is about to be destroyed. -/
def Safe (s : State DB) : Prop :=
  s.conn.pg.isOpen = true → s.conn.pg.stream = [] ∨ ∀ a, s.ActiveOwner a → s.Kept a

variable {s s' : State DB} {a x : Addr}

theorem Kept.owns (h : s.Kept a) : s.Owns a := by
  cases h with
  | handle h => exact .inl h
  | previous _ ho hp => exact .inr (.inl ⟨_, _, ho, hp⟩)

/-- What is kept does not depend on an object without an owner. -/
theorem Kept.of_others (h : s.Kept x) (ha : ¬ s.Owns a) (ho : ∀ x, x ≠ a → s'.object x = s.object x)
    (hh : s'.held = s.held) : s'.Kept x := by
  induction h with
  | handle h => exact .handle (hh ▸ h)
  | previous hx hox hp ih =>
    refine .previous ih ?_ hp
    rw [ho _ (fun he => ha (he ▸ Kept.owns hx)), hox]

theorem ActiveOwner.of_others (h : s.ActiveOwner x) (hx : x ≠ a) (ho : ∀ x, x ≠ a → s'.object x = s.object x) :
    s'.ActiveOwner x := by
  obtain ⟨o, hox, h⟩ := h
  exact ⟨o, (ho x hx).trans hox, h⟩

theorem Sound.init (db : DB) : (State.init db).Sound := by
  refine ⟨.init db, fun a o h => ?_, fun _ => rfl, fun _ h => ?_⟩
  · exact absurd h (by simp [State.init, object])
  · exact absurd h (by simp [State.init, Connection.init, PGconn.init])

theorem Sound.of_sameBlock (h : s.Sound) (hs : SameBlock s s') : s'.Sound := by
  obtain ⟨c, rfl, hk⟩ := hs
  have hopen (ho : c.pg.isOpen = true) : s.conn.pg.isOpen = true := by
    by_contra hc
    rw [hk.lost (by simpa using hc)] at ho
    cases ho
  refine ⟨h.registered, h.transactions, fun ho => hk.plain (h.plain (hopen ho)), fun ho hb => ?_⟩
  exact h.owner (hopen ho) (hk.block ▸ hb)

/-- Without a transaction that owns a block there is no block. -/
theorem Sound.block_none (h : s.Sound) (ho : s.conn.pg.isOpen = true) (hn : ∀ a, ¬ s.ActiveOwner a) :
    s.conn.pg.session.block = none := by
  by_contra hb
  obtain ⟨a, ha⟩ := h.owner ho (Option.isSome_iff_ne_none.2 hb)
  exact hn a ha

theorem Sound.next_isSome (h : s.Sound) {o : Object} (ho : s.object a = some o) :
    (s.next a).isSome = true ↔ o.connected = true := by
  rw [next_of_object ho, Object.link_transaction (h.transactions a o ho)]
  split <;> simp_all

end State

/-! ### Destruction -/

section Destruction

variable {W : World} {s s' : State DB} {a : Addr} {o : Object}

/-- What ending an object leaves behind: nothing but the object and the connection has changed, and if the connection
is still open, a block has an owner other than the object. -/
private structure Left (s : State DB) (a : Addr) (s' : State DB) : Prop where
  others : ∀ x, x ≠ a → s'.object x = s.object x
  role : ∀ o', s'.object a = some o' → ∃ o, s.object a = some o ∧ o'.role = o.role
  held : s'.held = s.held
  plain : s'.conn.pg.isOpen = true → s'.conn.pg.pipeline = false
  owner : s'.conn.pg.isOpen = true → s'.conn.pg.session.block.isSome = true → ∃ x, x ≠ a ∧ s.ActiveOwner x

/-- What the destructor of an object leaves behind: also, nothing is unread, or nothing is changed about what is
kept. -/
private structure Destroyed (s : State DB) (a : Addr) (s' : State DB) : Prop extends Left s a s' where
  safe : s'.conn.pg.isOpen = true → s'.conn.pg.stream = [] ∨ ∀ x, x ≠ a → s.ActiveOwner x → s.Kept x

private theorem Left.sound (h : s.Sound) (hl : Left s a s') (hr : s'.Registered) : s'.Sound := by
  refine ⟨hr, fun x y hx => ?_, hl.plain, fun ho hb => ?_⟩
  · by_cases hxa : x = a
    · subst hxa
      obtain ⟨o, ho, hrole⟩ := hl.role y hx
      exact hrole ▸ h.transactions x o ho
    · exact h.transactions x y ((hl.others x hxa).symm.trans hx)
  · obtain ⟨x, hx, hx'⟩ := hl.owner ho hb
    exact ⟨x, hx'.of_others hx hl.others⟩

/-- An object that owns no block is ended, and the block is left alone. -/
private theorem left_of_sameBlock (h : s.Sound) (ho : s.object a = some o) (hown : o.role.ownsBlock = false)
    (hs : SameBlock s s') : Left s a s' := by
  have h' := h.of_sameBlock hs
  obtain ⟨c, rfl, _⟩ := hs
  refine ⟨fun _ _ => rfl, fun x hx => ⟨x, hx, rfl⟩, rfl, h'.plain, fun hopen hb => ?_⟩
  obtain ⟨x, hx⟩ := h'.owner hopen hb
  refine ⟨x, ?_, hx⟩
  rintro rfl
  obtain ⟨y, hy, _, hyo⟩ := hx
  obtain rfl := Option.some.inj (ho.symm.trans hy)
  rw [hown] at hyo
  cases hyo

private theorem Destroyed.erase (h : s.Sound) (ha : ¬ s.Owns a) (hd : Destroyed s a s')
    (hr : s'.RegisteredWithout a) :
    ({ s' with objects := s'.objects.erase a } : State DB).Sound ∧
      ({ s' with objects := s'.objects.erase a } : State DB).Safe := by
  have others (x : Addr) (hx : x ≠ a) :
      ({ s' with objects := s'.objects.erase a } : State DB).object x = s.object x := by
    rw [State.object_erase, if_neg hx, hd.others x hx]
  have gone : ({ s' with objects := s'.objects.erase a } : State DB).object a = none := by
    rw [State.object_erase, if_pos rfl]
  have ne {x : Addr} {y : Object} (hx : ({ s' with objects := s'.objects.erase a } : State DB).object x = some y) :
      x ≠ a := by
    rintro rfl
    rw [gone] at hx
    cases hx
  refine ⟨⟨hr.erase, fun x y hx => ?_, hd.plain, fun ho hb => ?_⟩, fun ho => ?_⟩
  · exact h.transactions x y ((others x (ne hx)).symm.trans hx)
  · obtain ⟨x, hx, hx'⟩ := hd.owner ho hb
    exact ⟨x, hx'.of_others hx others⟩
  · refine (hd.safe ho).imp id fun hk x hx => ?_
    obtain ⟨y, hy, hc⟩ := hx
    exact (hk x (ne hy) ⟨y, (others x (ne hy)).symm.trans hy, hc⟩).of_others ha others hd.held

/-- The command by which an object is ended. -/
private def Ends (o : Object) (k : Control) : Prop :=
  (o.role.ownsBlock = true → k = .commitTransaction ∨ k = .rollbackTransaction) ∧
    (o.role.ownsBlock = false → ∃ n, k = .savepoint n ∨ k = .releaseSavepoint n ∨ k = .rollbackTo n)

/-- After a command that ends the object, a block has another owner. -/
private theorem destroyed_of_control (h : s.Sound) (ho : s.object a = some o) {k : Control} (refused : Bool)
    (hk : Ends o k) {c : Connection DB}
    (hc : c.Lost ∨ s.conn.pg.isOpen = true ∧ c.Shows (s.conn.pg.session.control refused k).1 []) :
    Destroyed s a { s with conn := c } := by
  rcases hc with hl | ⟨hopen, hc⟩
  · have lost {p : Prop} (hc : c.pg.isOpen = true) : p := absurd (hl.symm.trans hc) (by simp)
    exact ⟨⟨fun _ _ => rfl, fun x hx => ⟨x, hx, rfl⟩, rfl, lost, lost⟩, lost⟩
  refine ⟨⟨fun _ _ => rfl, fun x hx => ⟨x, hx, rfl⟩, rfl, fun _ => hc.pipeline, fun _ hb => ?_⟩,
    fun _ => .inl hc.stream⟩
  have hb : (s.conn.pg.session.control refused k).1.block.isSome = true := hc.session ▸ hb
  cases hown : o.role.ownsBlock with
  | true =>
    rw [Session.control_end _ (hk.1 hown)] at hb
    cases hb
  | false =>
    obtain ⟨x, hx⟩ := h.owner hopen (Session.control_block _ (hk.2 hown) refused ▸ hb)
    refine ⟨x, ?_, hx⟩
    rintro rfl
    obtain ⟨y, hy, _, hyo⟩ := hx
    obtain rfl := Option.some.inj (ho.symm.trans hy)
    rw [hown] at hyo
    cases hyo

/-- `v_reset` changes the object, and what is current. -/
private theorem Left.vReset (hl : Left s a s') :
    wp True (vReset a) (fun _ s'' => Left s a s'' ∧ s''.conn = s'.conn) (fun _ _ => False) s' := by
  simp only [TaoPQ.vReset, wp_bind, wp_deref, wp_setCurrent, wp_putObject, implies_true, and_true]
  refine wp_derefConnection a fun _ _ _ x hx => ⟨⟨fun y hy => ?_, fun y hy => ?_, hl.held, hl.plain, hl.owner⟩, rfl⟩
  · exact (State.object_insert s' a _ y).trans ((if_neg hy).trans (hl.others y hy))
  · obtain rfl := Option.some.inj (((State.object_insert s' a _ a).trans (if_pos rfl)).symm.trans hy)
    exact hl.role x hx

private theorem Destroyed.vReset (hd : Destroyed s a s') :
    wp True (vReset a) (fun _ => Destroyed s a) (fun _ _ => False) s' := by
  refine wp_mono hd.toLeft.vReset (fun _ s'' hl => ⟨hl.1, ?_⟩) (fun _ _ => id)
  rw [hl.2]
  exact hd.safe

private theorem execute_destroyed (hW : W.Quiet) (h : s.Sound) (ho : s.object a = some o) (hc : o.connected = true)
    (ht : s.current = some a) (hs : s.conn.pg.isOpen = true → s.conn.Shows s.conn.pg.session []) {k : Control}
    (hk : Ends o k) :
    Leaves (do let _ ← execute W a (.control k)) (Destroyed s a) s := by
  rw [leaves_bind]
  refine wp_mono (wp_execute_control hW ho hc ht hs k) ?_ ?_
  · rintro _ _ ⟨_, _, c, rfl, hcs⟩
    exact destroyed_of_control h ho _ hk (.inr hcs)
  · rintro _ _ ⟨c, rfl, hl | ⟨_, hcs⟩⟩
    · exact destroyed_of_control h ho false hk (.inl hl)
    · exact destroyed_of_control h ho _ hk (.inr hcs)

private theorem rollbackInDtor_destroyed (hW : W.Quiet) (h : s.Sound) (ho : s.object a = some o)
    (hc : o.connected = true) (ht : s.current = some a)
    (hrole : o.role.ownsBlock = true ∨ ∃ p, o.role = .nestedSubtransaction p)
    (hs : s.conn.pg.isOpen = true → s.conn.Shows s.conn.pg.session []) :
    wp True (rollbackInDtor W a) (fun _ => Destroyed s a) (fun _ _ => False) s := by
  simp only [rollbackInDtor, wp_bind, wp_catchAll, wp_check_current ho hc ht]
  have rolled : Leaves (vRollback W a) (Destroyed s a) s := by
    simp only [vRollback, wp_bind, wp_deref, ho, Option.some.injEq, forall_eq', implies_true, and_true]
    cases hr : o.role with
    | topLevelTransaction => exact execute_destroyed hW h ho hc ht hs ⟨fun _ => .inr rfl, by simp [hr, Role.ownsBlock]⟩
    | topLevelSubtransaction p =>
      exact execute_destroyed hW h ho hc ht hs ⟨fun _ => .inr rfl, by simp [hr, Role.ownsBlock]⟩
    | nestedSubtransaction p =>
      exact execute_destroyed hW h ho hc ht hs ⟨by simp [hr, Role.ownsBlock], fun _ => ⟨a, .inr (.inr rfl)⟩⟩
    | _ => simp [hr, Role.ownsBlock] at hrole
  refine wp_mono rolled (fun _ _ hd => hd.vReset) (fun _ _ hd => ?_)
  exact wp_derefConnection a fun _ _ _ => hd.vReset

private theorem attemptRollbackInDtor_destroyed (hW : W.Quiet) (h : s.Sound) (hsafe : s.Safe) (hu : ¬ s.Owns a)
    (ho : s.object a = some o) (hrole : o.role.ownsBlock = true ∨ ∃ p, o.role = .nestedSubtransaction p) :
    wp True (attemptRollbackInDtor W a) (fun _ => Destroyed s a) (fun _ _ => False) s := by
  simp only [attemptRollbackInDtor, wp_bind, wp_deref, ho, Option.some.injEq, forall_eq', wp_ite, wp_pure,
    wp_onConnection, reduceCtorEq, false_implies, and_true]
  -- an owner that is about to be destroyed is not kept
  have kept (hx : s.ActiveOwner a) (hopen : s.conn.pg.isOpen = true) : s.conn.pg.stream = [] :=
    (hsafe hopen).resolve_right fun hk => hu (hk a hx).owns
  have declined (hx : s.conn.pg.isOpen = true → s.ActiveOwner a → s.conn.pg.session.block = none)
      (calls : List LibpqCall) : Destroyed s a { s with conn := { s.conn with calls := calls } } := by
    refine ⟨⟨fun _ _ => rfl, fun x hx => ⟨x, hx, rfl⟩, rfl, h.plain, fun hopen hb => ?_⟩,
      fun hopen => (hsafe hopen).imp id fun hk x _ => hk x⟩
    obtain ⟨y, hy⟩ := h.owner hopen hb
    refine ⟨y, ?_, hy⟩
    rintro rfl
    rw [show s.conn.pg.session.block = none from hx hopen hy] at hb
    cases hb
  refine ⟨fun hc => ?_, fun hc => declined (fun _ hx => ?_) s.conn.calls⟩
  · have ht : s.current = some a := h.registered.top_of_unowned hu ((h.next_isSome ho).2 hc)
    rw [Connection.wp_attemptRollback]
    refine ⟨fun hv => ?_, fun hv => declined (fun hopen hx => ?_) _⟩
    · have h' (calls : List LibpqCall) : ({ s with conn := { s.conn with calls := calls } } : State DB).Sound :=
        ⟨h.registered, h.transactions, h.plain, h.owner⟩
      refine wp_mono (rollbackInDtor_destroyed hW (h' _) ho hc ht hrole fun hopen => ?_) ?_ (fun _ _ => id)
      · refine ⟨hopen, rfl, ?_, h.plain hopen⟩
        have hopen : s.conn.pg.isOpen = true := hopen
        simp only [hopen, Bool.not_true, Bool.false_or, Bool.and_eq_true, List.isEmpty_iff] at hv
        exact hv.1
      · exact fun _ s' hd => ⟨⟨hd.others, hd.role, hd.held, hd.plain, hd.owner⟩, hd.safe⟩
    · simpa [hopen, kept hx hopen] using hv
  · obtain ⟨y, hy, hyc, _⟩ := hx
    exact absurd (Option.some.inj (ho.symm.trans hy) ▸ hyc) hc

private theorem deregister_destroyed (hd : Destroyed s a s') :
    wp True (deregister a) (fun _ => Destroyed s a) (fun _ _ => False) s' := by
  simp only [deregister, wp_bind, wp_deref, wp_ite, wp_setCurrent, wp_pure, implies_true, and_true]
  exact fun x _ => ⟨fun _ => ⟨⟨hd.others, hd.role, hd.held, hd.plain, hd.owner⟩, hd.safe⟩, fun _ => hd⟩

private theorem destructor_destroyed (hW : W.Quiet) (release : Addr → Prog DB Unit) (h : s.Sound) (hsafe : s.Safe)
    (hu : ¬ s.Owns a) :
    wp True (destructor W release a) (fun _ => Destroyed s a) (fun _ _ => False) s := by
  simp only [destructor, wp_bind, wp_deref, implies_true, and_true]
  intro o ho
  have unchanged (hown : o.role.ownsBlock = false) : Destroyed s a s :=
    ⟨left_of_sameBlock h ho hown (refl (r := SameBlock) s), fun hopen => (hsafe hopen).imp id fun hk x _ => hk x⟩
  have ended (hrole : o.role.ownsBlock = true ∨ ∃ p, o.role = .nestedSubtransaction p) :
      wp True (do attemptRollbackInDtor W a; deregister a) (fun _ => Destroyed s a) (fun _ _ => False) s := by
    rw [wp_bind]
    exact wp_mono (attemptRollbackInDtor_destroyed hW h hsafe hu ho hrole) (fun _ _ hd => deregister_destroyed hd)
      (fun _ _ => id)
  cases hr : o.role with
  | autocommitTransaction => exact deregister_destroyed (unchanged (by rw [hr]; rfl))
  | topLevelTransaction => exact ended (.inl (by rw [hr]; rfl))
  | topLevelSubtransaction p => exact ended (.inl (by rw [hr]; rfl))
  | nestedSubtransaction p => exact ended (.inr ⟨p, hr⟩)
  | transactionGuard p => exact deregister_destroyed (unchanged (by rw [hr]; rfl))
  | pipeline p =>
    have hp := h.transactions a o ho
    simp [hr, Role.isPipeline] at hp

/-- Releasing a reference keeps blocks and their owners together. -/
private theorem releaseN_sound (hW : W.Quiet) (n : Nat) (a : Addr) (h : s.Sound) (hsafe : s.Safe) :
    wp True (releaseN W n a) (fun _ s' => s'.Sound ∧ s'.Safe) (fun _ _ => False) s := by
  induction n generalizing a s with
  | zero => exact ⟨h, hsafe⟩
  | succ n ih =>
    simp only [releaseN, wp_bind, wp_get, wp_ite, wp_deref, wp_eraseObject, wp_pure, implies_true, and_true]
    refine ⟨fun hu => ?_, fun _ => ⟨h, hsafe⟩⟩
    have hu := (s.unowned_eq_true a).1 hu
    refine wp_mono (wp_and (destructor_destroyed hW (releaseN W n) h hsafe hu)
      (destructor_registered (releaseN_registered n) h.registered hu)) (fun _ s' hs' o _ => ?_) (fun _ _ hs' => hs'.1)
    obtain ⟨hd, hr, _⟩ := hs'
    have he := hd.erase h hu hr
    cases o.role.previous with
    | none => exact he
    | some p => exact ih p he.1 he.2

theorem release_sound (hW : W.Quiet) (a : Addr) (h : s.Sound) (hsafe : s.Safe) :
    wp True (release W a) (fun _ s' => s'.Sound ∧ s'.Safe) (fun _ _ => False) s := by
  simp only [release, wp_bind, wp_get]
  exact releaseN_sound hW _ a h hsafe

theorem dropHandle_sound (hW : W.Quiet) (a : Addr) (h : s.Sound)
    (hsafe : ({ s with held := s.held.erase a } : State DB).Safe) :
    wp True (dropHandle W a) (fun _ => State.Sound) (fun _ _ => False) s := by
  simp only [dropHandle, wp_bind, wp_modify]
  have h' : ({ s with held := s.held.erase a } : State DB).Sound := ⟨h.registered, h.transactions, h.plain, h.owner⟩
  exact wp_mono (release_sound hW a h' hsafe) (fun _ _ hs' => hs'.1) (fun _ _ => id)

end Destruction

/-! ### Commit and rollback -/

section End

variable {W : World} {s : State DB} {a : Addr} {o : Object}

/-- The current object is there, and its connection is set. -/
theorem connected_of_current (h : s.Sound) (ht : s.current = some a) :
    ∃ o, s.object a = some o ∧ o.connected = true := by
  obtain ⟨q, hq⟩ := (ht ▸ h.registered : LinkedStack.Spans s.next (some a)).top
  rcases ho : s.object a with _ | o
  · simp [State.next, ho] at hq
  · exact ⟨o, rfl, (h.next_isSome ho).1 (by simp [hq])⟩

private theorem endWith_sound {x : Prog DB Unit} (hx : KeepsHeap x) (h : s.Sound) (ht : s.current = some a)
    (hl : Leaves x (Left s a) s) :
    Leaves (endWith a x) State.Sound s := by
  obtain ⟨o, ho, hc⟩ := connected_of_current h ht
  have left : Leaves (endWith a x) (Left s a) s := by
    rw [leaves_endWith, leaves_bind, wp_check_current ho hc ht]
    refine hl.mono fun s' hl' => ?_
    exact wp_mono hl'.vReset (fun _ _ hv => hv.1) (fun _ _ => False.elim)
  exact (left.and (endWith_registered hx h.registered ht (h.transactions a))).mono fun _ hs' => hs'.1.sound h hs'.2.1

/-- The command that ends a block, when nothing is unread, and the others whenever. -/
private theorem execute_left (hW : W.Quiet) (h : s.Sound) (ho : s.object a = some o) (hc : o.connected = true)
    (ht : s.current = some a)
    (hs : o.role.ownsBlock = true → s.conn.pg.isOpen = true → s.conn.pg.stream = []) {k : Control} (hk : Ends o k) :
    Leaves (do let _ ← execute W a (.control k)) (Left s a) s := by
  cases hown : o.role.ownsBlock with
  | true =>
    have hshows (hopen : s.conn.pg.isOpen = true) : s.conn.Shows s.conn.pg.session [] :=
      ⟨hopen, rfl, hs hown hopen, h.plain hopen⟩
    exact (execute_destroyed hW h ho hc ht hshows hk).mono fun _ hd => hd.toLeft
  | false =>
    rw [leaves_bind]
    have hfollows : Follows SameBlock (execute W a (.control k) : Prog DB PGresult) :=
      execute_sameBlock a (.control k) (hk.2 hown)
    exact hfollows.leaves fun _ => left_of_sameBlock h ho hown

theorem commit_sound (hW : W.Quiet) (h : s.Sound) (ht : s.current = some a)
    (hs : ∀ o, s.object a = some o → o.role.ownsBlock = true → s.conn.pg.isOpen = true → s.conn.pg.stream = []) :
    Leaves (commit W a) State.Sound s := by
  refine endWith_sound (.vCommit W a) h ht ?_
  obtain ⟨o, ho, hc⟩ := connected_of_current h ht
  simp only [vCommit, wp_bind, wp_deref, ho, Option.some.injEq, forall_eq', reduceCtorEq, false_implies, and_true]
  have unchanged (hown : o.role.ownsBlock = false) : Left s a s :=
    left_of_sameBlock h ho hown (refl (r := SameBlock) s)
  cases hr : o.role with
  | topLevelTransaction => exact execute_left hW h ho hc ht (hs o ho) ⟨fun _ => .inl rfl, by simp [hr, Role.ownsBlock]⟩
  | topLevelSubtransaction p =>
    exact execute_left hW h ho hc ht (hs o ho) ⟨fun _ => .inl rfl, by simp [hr, Role.ownsBlock]⟩
  | nestedSubtransaction p =>
    exact execute_left hW h ho hc ht (hs o ho) ⟨by simp [hr, Role.ownsBlock], fun _ => ⟨a, .inr (.inl rfl)⟩⟩
  | _ => exact unchanged (by rw [hr]; rfl)

theorem rollback_sound (hW : W.Quiet) (h : s.Sound) (ht : s.current = some a)
    (hs : ∀ o, s.object a = some o → o.role.ownsBlock = true → s.conn.pg.isOpen = true → s.conn.pg.stream = []) :
    Leaves (rollback W a) State.Sound s := by
  refine endWith_sound (.vRollback W a) h ht ?_
  obtain ⟨o, ho, hc⟩ := connected_of_current h ht
  simp only [vRollback, wp_bind, wp_deref, ho, Option.some.injEq, forall_eq', reduceCtorEq, false_implies, and_true]
  have unchanged (hown : o.role.ownsBlock = false) : Left s a s :=
    left_of_sameBlock h ho hown (refl (r := SameBlock) s)
  cases hr : o.role with
  | topLevelTransaction => exact execute_left hW h ho hc ht (hs o ho) ⟨fun _ => .inr rfl, by simp [hr, Role.ownsBlock]⟩
  | topLevelSubtransaction p =>
    exact execute_left hW h ho hc ht (hs o ho) ⟨fun _ => .inr rfl, by simp [hr, Role.ownsBlock]⟩
  | nestedSubtransaction p =>
    exact execute_left hW h ho hc ht (hs o ho) ⟨by simp [hr, Role.ownsBlock], fun _ => ⟨a, .inr (.inr rfl)⟩⟩
  | _ => exact unchanged (by rw [hr]; rfl)

end End

/-! ### Creating transactions -/

section Create

variable {W : World} {s : State DB} {a : Addr}

/-- Outside a block, `START TRANSACTION` opens one, or nothing changes, or the connection is lost. -/
private theorem execute_start (hW : W.Quiet) {o : Object} (ho : s.object a = some o) (hc : o.connected = true)
    (ht : s.current = some a)
    (hplain : s.conn.pg.isOpen = true → s.conn.pg.pipeline = false)
    (hnone : s.conn.pg.isOpen = true → s.conn.pg.session.block = none) (il : IsolationLevel) (am : AccessMode) :
    wp True (execute W a (.control (.startTransaction il am)))
      (fun _ s' => ∃ c, s' = { s with conn := c } ∧ c.pg.pipeline = false)
      (fun _ s' => ∃ c, s' = { s with conn := c } ∧ (c.pg.isOpen = true →
        c.pg.pipeline = false ∧ c.pg.session.block = none)) s := by
  by_cases hs : s.conn.pg.isOpen = true → s.conn.pg.stream = []
  · refine wp_mono (wp_execute_control hW ho hc ht (fun hopen => ?_) _) ?_ ?_
    · exact ⟨hopen, rfl, hs hopen, hplain hopen⟩
    · rintro _ _ ⟨_, _, c, rfl, _, hcs⟩
      exact ⟨c, rfl, hcs.pipeline⟩
    · rintro _ _ ⟨c, rfl, hl | ⟨hfail, hopen, _⟩⟩
      · exact ⟨c, rfl, fun hc => absurd (hl.symm.trans hc) (by simp)⟩
      · simp [Session.control, hnone hopen, PGresult.ok, PGresult.plain] at hfail
  · rw [wp_execute_current ho hc ht, wp_bind]
    have hopen : s.conn.pg.isOpen = true := by
      by_contra hn
      exact hs fun h => absurd h hn
    refine Connection.wp_sendParams_refused _ (.inr ⟨hplain hopen, fun hn => hs fun _ => hn⟩) fun e call => ?_
    exact ⟨_, rfl, fun h => ⟨hplain h, hnone h⟩⟩

/-- After a new object was placed on the stack, the old ones are as they were. -/
private theorem pushed_sound (h : s.Sound) (ha : s.free a) {r : Role} (hr : r.previous = s.current)
    (hp : r.isPipeline = false) :
    let s' : State DB := { s with objects := s.objects.insert a ⟨r, true⟩, current := some a }
    s'.Sound ∧ Pushed a s' ∧ s'.object a = some ⟨r, true⟩ := by
  intro s'
  have hobj (x : Addr) : s'.object x = if x = a then some ⟨r, true⟩ else s.object x := State.object_insert s a _ x
  refine ⟨⟨(push_pushed h.registered ha hr hp).1, fun x o hx => ?_, h.plain, fun hopen hb => ?_⟩,
    push_pushed h.registered ha hr hp, by rw [hobj, if_pos rfl]⟩
  · rw [hobj] at hx
    split at hx
    · obtain rfl := Option.some.inj hx
      exact hp
    · exact h.transactions x o hx
  · obtain ⟨x, hx⟩ := h.owner hopen hb
    refine ⟨x, hx.of_others ?_ fun y hy => (hobj y).trans (if_neg hy)⟩
    rintro rfl
    obtain ⟨o, ho, _⟩ := hx
    rw [State.free] at ha
    rw [ha] at ho
    cases ho

/-- The object that could not be constructed is removed again, and what is left is as before. -/
private theorem deregister_sound (h : s.Sound) (ha : s.free a) {t : State DB} (ht : Pushed a t)
    (hobj : ∀ x, x ≠ a → t.object x = s.object x) (hheld : t.held = s.held)
    (hplain : t.conn.pg.isOpen = true → t.conn.pg.pipeline = false)
    (howner : t.conn.pg.isOpen = true → t.conn.pg.session.block.isSome = true → ∃ x, s.ActiveOwner x) :
    wp True (deregister a) (fun _ t' => ({ t' with objects := t'.objects.erase a } : State DB).Sound ∧
      t'.held = s.held ∧ t'.objects = t.objects) (fun _ => State.Sound) t := by
  have frame : wp True (deregister a) (fun _ t' => t'.conn = t.conn ∧ t'.objects = t.objects ∧ t'.held = t.held)
      (fun _ _ => False) t := by
    simp only [deregister, wp_bind, wp_deref, wp_ite, wp_setCurrent, wp_pure, implies_true, and_true]
  refine wp_mono (wp_and (deregister_pushed ht) frame) (fun _ t' ht' => ⟨?_, ht'.2.2.2.trans hheld, ht'.2.2.1⟩)
    (fun _ _ hf => hf.2.elim)
  obtain ⟨hreg, hconn, hobjects, -⟩ := ht'
  have others (x : Addr) (hx : x ≠ a) :
      ({ t' with objects := t'.objects.erase a } : State DB).object x = s.object x := by
    rw [State.object_erase, if_neg hx, State.object, hobjects]
    exact hobj x hx
  refine ⟨hreg, fun x o hx => ?_, ?_, fun hopen hb => ?_⟩
  · by_cases hxa : x = a
    · rw [State.object_erase, if_pos hxa] at hx
      cases hx
    · exact h.transactions x o ((others x hxa).symm.trans hx)
  · rw [hconn]
    exact hplain
  · rw [hconn] at hopen hb
    obtain ⟨x, hx⟩ := howner hopen hb
    refine ⟨x, hx.of_others ?_ others⟩
    rintro rfl
    obtain ⟨o, ho, _⟩ := hx
    rw [State.free] at ha
    rw [ha] at ho
    cases ho

/-- Without a current transaction nobody owns a block, -/
theorem State.Sound.no_owner_of_null (h : s.Sound) (hc : s.current = none) (x : Addr) : ¬ s.ActiveOwner x := by
  rintro ⟨o, ho, hoc, _⟩
  have hn := (hc ▸ h.registered : LinkedStack.Spans s.next none).eq_none x
  have := (h.next_isSome ho).2 hoc
  simp [hn] at this

/-- nor while a direct transaction is current. -/
theorem State.Sound.no_owner_of_autocommit (h : s.Sound) {d : Addr} {c : Bool} (hc : s.current = some d)
    (hd : s.object d = some ⟨.autocommitTransaction, c⟩) (x : Addr) : ¬ s.ActiveOwner x := by
  rintro ⟨o, ho, hoc, hown⟩
  obtain ⟨l, hl, hall⟩ := (hc ▸ h.registered : LinkedStack.Spans s.next (some d))
  have hx := hall x ((h.next_isSome ho).2 hoc)
  -- the stack is the direct transaction alone
  cases hl with
  | cons hq hl =>
    rw [State.next_of_object hd] at hq
    have hq := Object.link_previous hq
    subst hq
    cases hl with
    | nil =>
      obtain rfl := List.mem_singleton.1 hx
      obtain rfl := Option.some.inj (hd.symm.trans ho)
      cases hown

theorem direct_sound (h : s.Sound) (ha : s.free a) :
    wp True (direct a) (fun _ s' => s'.Sound ∧ (∃ c, s'.object a = some ⟨.autocommitTransaction, c⟩) ∧
      s'.current = some a) (fun _ => State.Sound) s := by
  simp only [direct, newTransactionBase, wp_bind, wp_get, wp_ite, wp_throw, wp_putObject, wp_setCurrent, wp_hold]
  refine ⟨fun _ => h, fun hc => ?_⟩
  have hp := pushed_sound h ha (r := .autocommitTransaction) (Option.not_isSome_iff_eq_none.1 hc).symm rfl
  exact ⟨⟨hp.1.registered, hp.1.transactions, hp.1.plain, hp.1.owner⟩, ⟨true, hp.2.2⟩, trivial⟩

theorem transaction_sound (hW : W.Quiet) (il : IsolationLevel) (am : AccessMode) (h : s.Sound) (ha : s.free a) :
    Leaves (transaction W a il am) State.Sound s := by
  simp only [transaction, newTransactionBase, wp_bind, wp_get, wp_ite, wp_throw, wp_putObject, wp_setCurrent, wp_hold,
    wp_catchAll, wp_eraseObject]
  refine ⟨fun _ => h, fun hc => ?_⟩
  have hc : s.current = none := Option.not_isSome_iff_eq_none.1 hc
  obtain ⟨hs', hpush, hobj⟩ := pushed_sound h ha (r := .topLevelTransaction) hc.symm rfl
  have hnone (hopen : s.conn.pg.isOpen = true) : s.conn.pg.session.block = none :=
    h.block_none hopen (h.no_owner_of_null hc)
  refine wp_mono (execute_start hW hobj rfl rfl hs'.plain hnone il am) ?_ ?_
  · rintro _ _ ⟨c, rfl, hplain⟩
    exact ⟨hs'.registered, hs'.transactions, fun _ => hplain, fun _ _ => ⟨a, _, hobj, rfl, rfl⟩⟩
  · rintro _ _ ⟨c, rfl, hc⟩
    refine wp_mono (deregister_sound h ha (t := { s with
        conn := c, objects := s.objects.insert a ⟨.topLevelTransaction, true⟩, current := some a }) hpush
      (fun x hx => (State.object_insert s a _ x).trans (if_neg hx)) rfl (fun ho => (hc ho).1) fun ho hb => ?_)
      (fun _ _ hs' => hs'.1) (fun _ _ => id)
    rw [(hc ho).2] at hb
    cases hb

theorem subtransaction_sound (hW : W.Quiet) {o : Addr} (h : s.Sound) (hheld : o ∈ s.held) (ha : s.free a) :
    Leaves (subtransaction W o a) State.Sound s := by
  simp only [subtransaction, wp_bind, wp_checkCurrentTransaction, wp_deref, wp_ite, implies_true, and_true]
  intro x hx
  refine ⟨fun hcheck y hy => ?_, fun _ => h⟩
  obtain rfl := Option.some.inj (hx.symm.trans hy)
  have hcur := hcheck.2
  have pushed {r : Addr → Role} (hr : ∀ p, (r p).previous = some p) (hp : ∀ p, (r p).isPipeline = false) :=
    pushed_sound h ha (r := r o) ((hr o).trans hcur.symm) (hp o)
  -- how a constructor is unwound: the outer transaction is held by the program
  have unwound {r : Addr → Role} (hr : ∀ p, (r p).previous = some p) (hp : ∀ p, (r p).isPipeline = false)
      (c : Connection DB) (hplain : c.pg.isOpen = true → c.pg.pipeline = false)
      (howner : c.pg.isOpen = true → c.pg.session.block.isSome = true → ∃ x, s.ActiveOwner x) :
      Leaves (unwindSubtransaction W a) State.Sound
        { s with conn := c, objects := s.objects.insert a ⟨r o, true⟩, current := some a } := by
    obtain ⟨_, hpush, hobj⟩ := pushed hr hp
    simp only [unwindSubtransaction, wp_bind, wp_deref, wp_eraseObject, implies_true, and_true]
    refine wp_mono (deregister_sound h ha hpush (fun y hy => (State.object_insert s a _ y).trans (if_neg hy)) rfl
      hplain howner) (fun _ t' ht' y hy => ?_) (fun _ _ => id)
    have hy' : y = ⟨r o, true⟩ := by
      rw [State.object, ht'.2.2] at hy
      exact Option.some.inj (hy.symm.trans hobj)
    rw [hy', hr o]
    exact wp_release_owns (.inl (ht'.2.1 ▸ hheld)) ht'.1
  refine ⟨fun hrole => ?_, fun _ => ?_⟩
  · have hnone (hopen : s.conn.pg.isOpen = true) : s.conn.pg.session.block = none := by
      obtain ⟨r, c⟩ := x
      obtain rfl : r = .autocommitTransaction := hrole
      exact h.block_none hopen (h.no_owner_of_autocommit hcur hx)
    obtain ⟨hs', _, hobj⟩ := pushed (r := .topLevelSubtransaction) (fun _ => rfl) (fun _ => rfl)
    simp only [newSubtransaction, newSubtransactionBase, wp_bind, wp_get, hcur, wp_derefPointer_some, wp_putObject,
      wp_setCurrent, wp_hold, wp_catchAll, wp_throw, implies_true, and_true]
    refine fun _ => wp_mono (execute_start hW hobj rfl rfl hs'.plain hnone _ _) ?_ ?_
    · rintro _ _ ⟨c, rfl, hplain⟩
      exact ⟨hs'.registered, hs'.transactions, fun _ => hplain, fun _ _ => ⟨a, _, hobj, rfl, rfl⟩⟩
    · rintro _ _ ⟨c, rfl, hc⟩
      refine unwound (r := .topLevelSubtransaction) (fun _ => rfl) (fun _ => rfl) c (fun ho => (hc ho).1) ?_
      intro ho hb
      rw [(hc ho).2] at hb
      cases hb
  · obtain ⟨hs', _, hobj⟩ := pushed (r := .nestedSubtransaction) (fun _ => rfl) (fun _ => rfl)
    simp only [newSubtransaction, newSubtransactionBase, wp_bind, wp_get, hcur, wp_derefPointer_some, wp_putObject,
      wp_setCurrent, wp_hold, wp_catchAll, wp_throw, implies_true, and_true]
    have hfollows : Follows SameBlock (execute W a (.control (.savepoint a)) : Prog DB PGresult) :=
      execute_sameBlock a (.control (.savepoint a)) ⟨a, .inl rfl⟩
    refine fun _ => hfollows.wp_of (fun _ s'' hsame => ?_) (fun _ s'' hsame => ?_)
    · have h'' := hs'.of_sameBlock hsame
      exact ⟨h''.registered, h''.transactions, h''.plain, h''.owner⟩
    · have h'' := hs'.of_sameBlock hsame
      obtain ⟨c, rfl, hk⟩ := hsame
      refine unwound (r := .nestedSubtransaction) (fun _ => rfl) (fun _ => rfl) c h''.plain fun ho hb => ?_
      have hopen : s.conn.pg.isOpen = true := by
        by_contra hn
        rw [hk.lost (by simpa using hn)] at ho
        cases ho
      exact h.owner hopen (hk.block ▸ hb)

end Create

/-! ### Runs that end blocks cleanly -/

/-- The calls by which transactions are created, used and ended. -/
def Call.transactional : Call DB → Bool
  | .direct _ | .transaction _ _ _ | .subtransaction _ _ | .send _ _ | .getResult _ | .execute _ _
  | .connectionExecute _ _ | .commit _ | .rollback _ | .copyHandle _ | .dropHandle _ => true
  | _ => false

/-- Only the current transaction is committed or rolled back; if it owns a block, nothing is unread then; and while
something is unread, no handle is dropped without which an owner of a block would be destroyed. -/
def Call.Clean (s : State DB) : Call DB → Prop
  | .commit o | .rollback o => s.current = some o ∧
      ∀ x, s.object o = some x → x.role.ownsBlock = true → s.conn.pg.isOpen = true → s.conn.pg.stream = []
  | .dropHandle o => ({ s with held := s.held.erase o } : State DB).Safe
  | c => c.transactional = true

section Runs

variable {W : World} {s s' : State DB}

theorem sound_step (hW : W.Quiet) {c : Call DB} (h : s.Sound) (hc : c.Clean s) (hs : Step W s c s') : s'.Sound := by
  obtain ⟨hl, hs⟩ := hs
  suffices h' : Leaves (perform W c) State.Sound s from
    Outcome.Sat.of_stateLeft h' hs
  have keeps {x : Prog DB Unit} (hx : Follows SameBlock x) :
      Leaves x State.Sound s :=
    hx.leaves fun _ => h.of_sameBlock
  cases c with
  | direct a => exact wp_mono (direct_sound h hl) (fun _ _ hs' => hs'.1) (fun _ _ => id)
  | transaction a il am => exact transaction_sound hW il am h hl
  | subtransaction o a => exact subtransaction_sound hW h hl.1.1 hl.2
  | send o u => exact keeps (send_sameBlock o _ trivial)
  | getResult o => exact keeps (.bind (getResult_sameBlock o) fun _ => .pure ())
  | execute o u => exact keeps (.bind (execute_sameBlock o _ trivial) fun _ => .pure ())
  | connectionExecute d u =>
    show wp True (ignore _) _ _ s
    simp only [ignore, connectionExecute, wp_bind, wp_pure, wp_andFinally]
    refine wp_mono (direct_sound h hl) (fun _ s₁ h₁ => ?_) (fun _ _ => id)
    obtain ⟨h₁, ⟨b, hd⟩, hcur⟩ := h₁
    have dropped (s₂ : State DB) (hsame : SameBlock s₁ s₂) :
        Leaves (dropHandle W d) State.Sound s₂ := by
      have h₂ := h₁.of_sameBlock hsame
      obtain ⟨c, rfl, _⟩ := hsame
      refine wp_mono (dropHandle_sound hW d h₂ fun _ => .inr fun x hx => ?_) (fun _ _ => id) (fun _ _ => False.elim)
      exact absurd hx (h₂.no_owner_of_autocommit hcur hd x)
    exact (execute_sameBlock d (.user u) trivial).leaves dropped
  | copyHandle o => exact ⟨h.registered, h.transactions, h.plain, h.owner⟩
  | commit o => exact commit_sound hW h hc.1 hc.2
  | rollback o => exact rollback_sound hW h hc.1 hc.2
  | dropHandle o => exact wp_mono (dropHandle_sound hW o h hc) (fun _ _ => id) (fun _ _ => False.elim)
  | _ => cases hc

theorem Reaches.sound (hW : W.Quiet) (h : Reaches W Call.Clean s) : s.Sound :=
  h.invariant State.Sound.init fun _ _ _ hi hc hs => sound_step hW hi hc hs

/-- In a run that ends its blocks cleanly, no block is open when there is no current transaction, or when the current
one is a direct transaction. -/
theorem no_block_outlives (hW : W.Quiet) (h : Reaches W Call.Clean s) (hopen : s.conn.pg.isOpen = true)
    (hc : s.current = none ∨ ∃ d c, s.current = some d ∧ s.object d = some ⟨.autocommitTransaction, c⟩) :
    s.conn.pg.session.block = none := by
  rcases hc with hc | ⟨d, c, hc, hd⟩
  · exact (h.sound hW).block_none hopen ((h.sound hW).no_owner_of_null hc)
  · exact (h.sound hW).block_none hopen ((h.sound hW).no_owner_of_autocommit hc hd)

theorem no_block_outlives_commit : ∃ s : State Nat, Reaches .calm Call.Clean s ∧ s.conn.pg.isOpen = true ∧
    s.current = none ∧ s.conn.pg.session.committed = 1 ∧ s.conn.pg.session.block = none := by
  obtain ⟨s, hs, hopen, hc, hdb⟩ := Reaches.of_trace .calm
    (fun s c => (match c with
      | .commit o => s.current == some o && s.conn.pg.stream.isEmpty
      | .dropHandle _ => s.conn.pg.stream.isEmpty
      | .transaction _ _ _ | .execute _ _ => true
      | _ => false) = true)
    [.transaction 1 .defaultIsolationLevel .defaultAccessMode,
      .execute 1 ⟨"UPDATE t SET n = n + 1", .command (fun n => some (n + 1)) (some 1)⟩, .commit 1, .dropHandle 1] 0
    (P := fun s => s.conn.pg.isOpen = true ∧ s.current = none ∧ s.conn.pg.session.committed = 1) (by decide +kernel)
  have hs : Reaches .calm Call.Clean s := by
    refine hs.mono fun s c hc => ?_
    cases c with
    | commit o =>
      simp only [Bool.and_eq_true, beq_iff_eq, List.isEmpty_iff] at hc
      exact ⟨hc.1, fun _ _ _ _ => hc.2⟩
    | dropHandle o => exact fun _ => .inl (List.isEmpty_iff.1 hc)
    | transaction a il am => rfl
    | execute o u => rfl
    | _ => cases hc
  exact ⟨s, hs, hopen, hc, hdb, no_block_outlives World.calm_quiet hs hopen (.inl hc)⟩

/-- Out of order, a block does outlive its handles: the outer transaction is committed while there is an inner one,
which throws, but resets it nevertheless. -/
theorem block_outlives : ∃ s : State Unit, Reaches .calm (fun _ c => c.transactional = true) s ∧
    s.conn.pg.isOpen = true ∧ s.conn.pg.stream = [] ∧ s.current = none ∧ s.conn.pg.session.block ≠ none := by
  obtain ⟨s, hs, hopen, hstream, hc, hb⟩ := Reaches.of_trace .calm (fun _ c => c.transactional = true)
    [.transaction 1 .defaultIsolationLevel .defaultAccessMode, .subtransaction 1 2, .commit 1] ()
    (P := fun s => s.conn.pg.isOpen = true ∧ s.conn.pg.stream.isEmpty = true ∧ s.current = none ∧
      s.conn.pg.session.block.isSome = true) (by decide +kernel)
  exact ⟨s, hs, hopen, List.isEmpty_iff.1 hstream, hc, Option.isSome_iff_ne_none.1 hb⟩

end Runs

end TaoPQ
