import TaoPQ.Destruction
import TaoPQ.Traffic

/-!
# The end of a nested subtransaction

A nested subtransaction is a savepoint: whatever fails in it, its end should leave the transaction around it current,
and the block usable, with the changes of the subtransaction or without them (`Connection.Spared`).
`nested_spared_iff` says exactly when this is so, whatever the network and the notification handlers do.  It is not so
when `commit` is called after a statement has failed: `RELEASE SAVEPOINT` fails like every statement in a failed block,
and `commit` ends the object when it throws, so that nothing rolls back to the savepoint any more.
-/

namespace TaoPQ

open Exec

variable {DB : Type} {W : World}

/-! ### The session -/

namespace Session

variable {σ : Session DB} {a : Addr} {x : DB}

/-- The session is in a block whose last savepoint is `a`, made of the content `x`. -/
def Inside (σ : Session DB) (a : Addr) (x : DB) : Prop :=
  ∃ b rest, σ.block = some b ∧ b.saves = (a, x) :: rest

/-- A block that is usable, with this content. -/
def Usable (σ : Session DB) (x : DB) : Prop := ∃ b, σ.block = some b ∧ b.failed = false ∧ b.content = x

theorem Inside.fail (h : σ.Inside a x) : σ.fail.Inside a x := by
  obtain ⟨b, rest, hb, hs⟩ := h
  exact ⟨{ b with failed := true }, rest, by simp [Session.fail, hb], hs⟩

theorem Inside.run (h : σ.Inside a x) (effect : DB → Option DB) (r : PGresult) : (σ.run effect r).1.Inside a x := by
  obtain ⟨b, rest, hb, hs⟩ := h
  unfold Session.run
  rw [hb]
  dsimp only
  split
  · exact ⟨b, rest, hb, hs⟩
  · cases effect b.content with
    | none => exact Inside.fail ⟨b, rest, hb, hs⟩
    | some y => exact ⟨{ b with content := y }, rest, rfl, hs⟩

theorem Inside.usable_iff (h : σ.Inside a x) (y : DB) : σ.Usable y ↔ σ.failed = false ∧ σ.content = y := by
  obtain ⟨b, rest, hb, hs⟩ := h
  simp [Usable, failed, content, hb]

theorem not_usable (hf : σ.failed = true) (y : DB) : ¬ σ.Usable y := by
  rintro ⟨b, hb, hfb, -⟩
  simp [failed, hb, hfb] at hf

/-- `SAVEPOINT` succeeds in a block that has not failed, and only there. -/
theorem control_savepoint {refused : Bool} (hok : (σ.control refused (.savepoint a)).2.ok = true) :
    (σ.control refused (.savepoint a)).1.Inside a σ.content := by
  cases hb : σ.block with
  | none => simp [control, hb, PGresult.fatal, PGresult.plain, PGresult.ok] at hok
  | some b =>
    cases hf : b.failed with
    | true => simp [control, hb, hf, PGresult.fatal, PGresult.plain, PGresult.ok] at hok
    | false =>
      have hcontent : σ.content = b.content := by simp [content, hb]
      simp only [control, hb, hf, Bool.false_eq_true, ↓reduceIte]
      exact ⟨_, b.saves, rfl, by rw [hcontent]⟩

/-- `ROLLBACK TO` makes the block usable again. -/
theorem control_rollbackTo (h : σ.Inside a x) (refused : Bool) :
    (σ.control refused (.rollbackTo a)).1.Usable x := by
  obtain ⟨b, rest, hb, hs⟩ := h
  simp only [control, hb, hs, Savepoints.since, ↓reduceIte]
  exact ⟨_, rfl, rfl, rfl⟩

/-- `RELEASE SAVEPOINT` keeps the changes, in a block that has not failed. -/
theorem control_release (h : σ.Inside a x) (hf : σ.failed = false) (refused : Bool) :
    (σ.control refused (.releaseSavepoint a)).2.ok = true ∧
      (σ.control refused (.releaseSavepoint a)).1.Usable σ.content := by
  obtain ⟨b, rest, hb, hs⟩ := h
  have hfb : b.failed = false := by simpa [failed, hb] using hf
  simp only [control, hb, hs, hfb, Bool.false_eq_true, Savepoints.since, ↓reduceIte]
  exact ⟨rfl, _, rfl, rfl, by simp [content, hb]⟩

theorem control_release_failed (hf : σ.failed = true) (refused : Bool) :
    σ.control refused (.releaseSavepoint a) = (σ, .fatal) := by
  obtain ⟨b, hb, hf⟩ := (Option.any_eq_true _ _).1 hf
  simp [control, hb, hf]

end Session

/-! ### The connection -/

/-- The session is inside the savepoint `a`, and pipeline mode is off. -/
def PGconn.Within (c : PGconn DB) (a : Addr) (x : DB) : Prop := c.pipeline = false ∧ c.session.Inside a x

namespace PGconn

variable {c : PGconn DB} {a : Addr} {x : DB}

/-- Reading, which may abort a COPY, does not leave a savepoint. -/
theorem reads_within (a : Addr) (x : DB) : ReadsPreserved W (fun c : PGconn DB => c.Within a x) where
  tick _ := id
  close _ := id
  getResult c h := by
    unfold getResult
    repeat' split
    all_goals exact h
  cancel c h := by
    unfold cancel
    repeat' split
    all_goals first
      | exact h
      | exact ⟨h.1, h.2.fail⟩
  getCopyData c h := by
    unfold getCopyData
    repeat' split
    all_goals exact h
  putCopyEnd c m h := by
    simp only [putCopyEnd]
    repeat' split
    all_goals first
      | exact h
      | exact ⟨h.1, h.2.fail⟩
      | exact ⟨h.1, h.2.run _ _⟩

theorem Within.runUser (h : c.Within a x) (u : Body DB) : (c.runUser u).1.Within a x := by
  cases u with
  | empty => exact h
  | command effect n => exact ⟨h.1, h.2.run _ _⟩
  | query effect columns rows => exact ⟨h.1, h.2.run _ _⟩
  | copyFrom load rows =>
    unfold PGconn.runUser
    dsimp only
    split <;> exact h
  | copyTo columns rows completes =>
    unfold PGconn.runUser
    dsimp only
    repeat' split
    all_goals first
      | exact h
      | exact ⟨h.1, h.2.fail⟩

/-- A statement of the user does not leave a savepoint. -/
theorem Within.send (h : c.Within a x) (byName : Bool) (u : Statement DB) :
    (c.send W byName (.user u)).1.Within a x := by
  unfold PGconn.send
  rw [if_neg (by simp [h.1] : ¬ c.pipeline = true)]
  split
  · exact h
  · split
    · exact h
    · unfold run
      dsimp only
      split
      · exact ⟨h.1, h.2.fail⟩
      · exact h.runUser u.body

end PGconn

/-- Waiting ends with the connection being closed. -/
def World.Closes (W : World) (n : Nat) : Prop := W.wait n = .timeout ∨ W.wait n = .broken

namespace Connection

variable {c : Connection DB} {a : Addr} {x y : DB} {σ : Session DB}

/-- The answer to a command of taoPQ that is sent now will be read to its end. -/
def Hears (W : World) (c : Connection DB) : Prop := W.Delivers (c.pg.clock + 1) ∧ W.Delivers (c.pg.clock + 3)

/-- The connection will be lost while the answer to a command of taoPQ that is sent now is read. -/
def Breaks (W : World) (c : Connection DB) : Prop :=
  W.Closes (c.pg.clock + 1) ∨ W.Delivers (c.pg.clock + 1) ∧ W.Closes (c.pg.clock + 3)

theorem not_delivers_of_closes {n : Nat} (h : W.Closes n) : ¬ W.Delivers n := by
  rintro ⟨hw, -⟩
  rcases h with h | h <;> simp [hw] at h

theorem not_hears_of_breaks (h : c.Breaks W) : ¬ c.Hears W := by
  rintro ⟨h₁, h₃⟩
  rcases h with h | ⟨-, h⟩
  · exact not_delivers_of_closes h h₁
  · exact not_delivers_of_closes h h₃

theorem wp_wait_exact (ho : c.pg.isOpen = true) :
    wp False (wait W) (fun _ c' => c' = { c with pg := c.pg.tick } ∧ W.wait c.pg.clock = .ready)
      (fun _ c' => c'.pg.session = c.pg.session ∧ (c'.pg.isOpen = false ↔ W.Closes c.pg.clock) ∧
        W.wait c.pg.clock ≠ .ready) c := by
  unfold wp wait
  cases hw : W.wait c.pg.clock with
  | ready => exact ⟨rfl, rfl⟩
  | timeout => exact ⟨rfl, iff_of_true rfl (.inl hw), by simp⟩
  | broken => exact ⟨rfl, iff_of_true rfl (.inr hw), by simp⟩
  | handler => exact ⟨rfl, iff_of_false (by simp [PGconn.tick, ho]) (by simp [World.Closes, hw]), by simp⟩

theorem wp_handleNotifications_exact :
    wp False (handleNotifications W)
      (fun _ c' => c' = { c with pg := c.pg.tick } ∧ W.handlerThrows c.pg.clock = false)
      (fun _ c' => c' = { c with pg := c.pg.tick } ∧ W.handlerThrows c.pg.clock = true) c := by
  unfold wp handleNotifications
  cases hh : W.handlerThrows c.pg.clock with
  | true => exact ⟨rfl, rfl⟩
  | false => exact ⟨rfl, rfl⟩

/-- An item is read exactly when waiting for it, and the notifications that came with it, end normally. -/
theorem wp_getResult_exact {i : Item DB} {rest : List (Item DB)} {r : Option PGresult}
    (h : c.Shows σ (i :: rest)) (hread : i = .null ∧ r = none ∨ ∃ z, i = .result z ∧ r = some z) :
    wp False (getResult W)
      (fun v c' => v = r ∧ c'.Shows σ rest ∧ c'.pg.clock = c.pg.clock + 2 ∧ W.Delivers c.pg.clock)
      (fun _ c' => c'.pg.session = σ ∧ (c'.pg.isOpen = false ↔ W.Closes c.pg.clock) ∧ ¬ W.Delivers c.pg.clock) c := by
  have hbusy : c.pg.isBusy = true := by
    rcases hread with ⟨rfl, -⟩ | ⟨z, rfl, -⟩ <;> simp [PGconn.isBusy, h.isOpen, h.stream]
  have hgot : c.pg.tick.getResult = ({ c.pg.tick with stream := rest }, r) := by
    rcases hread with ⟨rfl, rfl⟩ | ⟨z, rfl, rfl⟩ <;> simp [PGconn.getResult, PGconn.tick, h.isOpen, h.stream]
  simp only [getResult, waitWhen, wp_bind, wp_get, hbusy, ↓reduceIte, wp_libpq, wp_pure]
  refine wp_mono (wp_wait_exact h.isOpen) (fun _ c₁ h₁ => ?_) fun _ c₁ h₁ => ?_
  · obtain ⟨rfl, hw⟩ := h₁
    dsimp only
    rw [hgot]
    have hnot : ¬ W.Closes c.pg.clock := by simp [World.Closes, hw]
    refine wp_mono wp_handleNotifications_exact (fun _ c₂ h₂ => ?_) fun _ c₂ h₂ => ?_
    · obtain ⟨rfl, hh⟩ := h₂
      exact ⟨rfl, ⟨h.isOpen, h.session, rfl, h.pipeline⟩, rfl, hw, hh⟩
    · obtain ⟨rfl, hh⟩ := h₂
      refine ⟨h.session, iff_of_false (by simp [PGconn.tick, h.isOpen]) hnot, fun hd => ?_⟩
      exact Bool.false_ne_true (hd.2.symm.trans hh)
  · exact ⟨h₁.1.trans h.session, h₁.2.1, fun hd => h₁.2.2 hd.1⟩

/-- A command of taoPQ is executed.  The call returns exactly when the answer is read to its end, and is no error. -/
theorem wp_control_exact (h : c.Shows σ []) (k : Control) :
    let answer := σ.control (W.commitRefused c.pg.clock) k
    wp False (do sendParams W (.control k); fetchResult W)
      (fun _ c' => c'.Shows answer.1 [] ∧ c.Hears W ∧ answer.2.ok = true)
      (fun _ c' => c'.pg.session = answer.1 ∧ (c'.pg.isOpen = false ↔ c.Breaks W) ∧
        (c.Hears W → answer.2.ok = false)) c := by
  dsimp only
  rw [wp_bind]
  refine wp_mono (wp_sendParams_control h k) (fun _ c₁ h₁ => ?_) fun _ _ => id
  obtain ⟨h₁, hclock⟩ := h₁
  have hstatus := control_status σ (W.commitRefused c.pg.clock) k
  generalize σ.control (W.commitRefused c.pg.clock) k = answer at h₁ hstatus ⊢
  simp only [fetchResult, wp_bind]
  refine wp_mono (wp_getResult_exact h₁ (.inr ⟨_, rfl, rfl⟩)) (fun v c₂ h₂ => ?_) fun _ c₂ h₂ => ?_
  · obtain ⟨rfl, hs₂, hclock₂, hd⟩ := h₂
    rw [hclock] at hclock₂ hd
    have hnot : ¬ W.Closes (c.pg.clock + 1) := fun h => not_delivers_of_closes h hd
    have drained : wp False (do consumeEmptyResult W; result answer.2)
        (fun _ c' => c'.Shows answer.1 [] ∧ c.Hears W ∧ answer.2.ok = true)
        (fun _ c' => c'.pg.session = answer.1 ∧ (c'.pg.isOpen = false ↔ c.Breaks W) ∧
          (c.Hears W → answer.2.ok = false)) c₂ := by
      simp only [consumeEmptyResult, wp_bind]
      refine wp_mono (wp_getResult_exact hs₂ (.inl ⟨rfl, rfl⟩)) (fun v c₃ h₃ => ?_) fun _ c₃ h₃ => ?_
      · obtain ⟨rfl, hs₃, -, hd'⟩ := h₃
        rw [hclock₂] at hd'
        have hh : c.Hears W := ⟨hd, hd'⟩
        rcases hstatus with hr | hr
        · simp [result, PGresult.ok, hr, hs₃, hh]
        · have hb : ¬ c.Breaks W := fun hb => not_hears_of_breaks hb hh
          simp [result, PGresult.ok, hr, hs₃.session, hs₃.isOpen, hb]
      · rw [hclock₂] at h₃
        refine ⟨h₃.1, h₃.2.1.trans ⟨fun h => .inr ⟨hd, h⟩, fun h => ?_⟩, fun hh => absurd hh.2 h₃.2.2⟩
        exact h.elim (fun h => absurd h hnot) (·.2)
    rcases hstatus with hr | hr <;> simpa only [hr] using drained
  · rw [hclock] at h₂
    refine ⟨h₂.1, h₂.2.1.trans ⟨.inl, fun h => ?_⟩, fun hh => absurd hh.1 h₂.2.2⟩
    exact h.elim id fun h => absurd h.1 h₂.2.2

/-- The block is usable, with the content `x`, unless the connection is lost. -/
def Spared (c : Connection DB) (x : DB) : Prop := c.pg.isOpen = true → c.pg.session.Usable x

end Connection

/-! ### The object -/

/-- The nested subtransaction `a` is current, above `p`, and a handle of the program is its only owner. -/
structure State.Inner (s : State DB) (p a : Addr) : Prop where
  object : s.object a = some ⟨.nestedSubtransaction p, true⟩
  current : s.current = some a
  below : p ∈ s.held.erase a
  sole : ¬ ({ s with held := s.held.erase a } : State DB).Owns a

theorem State.Inner.conn {s : State DB} {p a : Addr} (h : s.Inner p a) (c : Connection DB) :
    ({ s with conn := c } : State DB).Inner p a :=
  ⟨h.object, h.current, h.below, h.sole⟩

section Executes

variable {s : State DB} {p a : Addr} {x : DB}

/-- A statement of the subtransaction stays inside its savepoint. -/
theorem wp_execute_within (hi : s.Inner p a) (h : s.conn.pg.Within a x) (u : Statement DB) :
    wp False (execute W a (.user u)) (fun _ s' => ∃ c, s' = { s with conn := c } ∧ c.pg.Within a x)
      (fun _ s' => ∃ c, s' = { s with conn := c } ∧ c.pg.Within a x) s := by
  refine wp_of_defined (execute_defined _ (by rw [hi.object]; rfl)) ?_
  refine (wp_execute_current hi.object rfl hi.current _).2 ?_
  let I : PGconn DB → Prop := fun c => c.Within a x
  have hreads : Connection.ReadsFollow W (Connection.Keeps I) := Connection.reads_keep (PGconn.reads_within a x)
  have hsend : Follows (Connection.Keeps I) (Connection.sendParams W (.user u)) :=
    .bind .get fun _ => Connection.libpqOr_keeps _ _ fun _ hc => hc.send _ u
  have hfollows : Follows (Connection.Keeps I)
      (do Connection.sendParams W (.user u); Connection.fetchResult W) := .bind hsend fun _ => hreads.fetchResult
  exact wp_mono (hfollows s.conn) (fun _ c hc => ⟨c, rfl, hc h⟩) fun _ c hc => ⟨c, rfl, hc h⟩

/-- Statements, one after the other, whether they fail or not. -/
def executeAll (W : World) (a : Addr) : List (Statement DB) → Prog DB Unit
  | [] => return ()
  | u :: us => do
    Exec.catchAll (ignore (execute W a (.user u))) (fun _ => return ())
    executeAll W a us

theorem wp_executeAll (hi : s.Inner p a) (h : s.conn.pg.Within a x) (us : List (Statement DB)) :
    wp False (executeAll W a us) (fun _ s' => ∃ c, s' = { s with conn := c } ∧ c.pg.Within a x)
      (fun _ _ => False) s := by
  induction us generalizing s with
  | nil => exact ⟨s.conn, rfl, h⟩
  | cons u us ih =>
    have hrest (s' : State DB) (hs' : ∃ c, s' = { s with conn := c } ∧ c.pg.Within a x) :
        wp False (executeAll W a us) (fun _ s' => ∃ c, s' = { s with conn := c } ∧ c.pg.Within a x)
          (fun _ _ => False) s' := by
      obtain ⟨c, rfl, hc⟩ := hs'
      exact ih (hi.conn c) hc
    simp only [executeAll, ignore, wp_bind, wp_catchAll, wp_pure]
    exact wp_mono (wp_execute_within hi h u) (fun _ s' => hrest s') fun _ s' => hrest s'

end Executes

/-! ### How it ends -/

/-- The ways in which a program ends a subtransaction. -/
inductive Ending where
  | commit
  | rollback
  | destroy
  deriving DecidableEq, Repr

/-- The subtransaction is ended, also when an exception is thrown.  The answer is whether a `commit` returned. -/
def Ending.perform (W : World) (a : Addr) : Ending → Prog DB Bool
  | .commit =>
    Exec.catchAll
      (do
        TaoPQ.commit W a
        return true)
      (fun _ => return false)
  | .rollback =>
    Exec.catchAll
      (do
        TaoPQ.rollback W a
        return false)
      (fun _ => return false)
  | .destroy => do
    dropHandle W a
    return false

/-- When the end of a subtransaction spares the block around it, if its savepoint was made of the content `x`.  While
something is unread, nothing can be sent, and nothing may have changed.  Otherwise `commit` must not be called after a
statement has failed, and its answer must be read to the end, or bring no change; unless the connection is lost. -/
def Ending.Spares (W : World) (e : Ending) (c : Connection DB) (x : DB) : Prop :=
  c.pg.isOpen = true →
    (c.pg.stream ≠ [] → c.pg.session.failed = false ∧ c.pg.session.content = x) ∧
    (c.pg.stream = [] → e = .commit →
      c.Breaks W ∨ c.pg.session.failed = false ∧ (c.Hears W ∨ c.pg.session.content = x))

section Ends

variable {s : State DB} {p a : Addr} {x : DB} {e : Ending}

/-- The connection is lost, or something is unread: nothing could be sent. -/
private theorem spared_of_refused (h : s.conn.pg.Within a x)
    (hs : s.conn.pg.isOpen = false ∨ s.conn.pg.stream ≠ []) (e : Ending) (calls : List LibpqCall) :
    ({ s.conn with calls := calls } : Connection DB).Spared x ↔ e.Spares W s.conn x := by
  by_cases ho : s.conn.pg.isOpen = true
  · have hs : s.conn.pg.stream ≠ [] := hs.resolve_left (by simp [ho])
    have husable : s.conn.pg.session.Usable x ↔ _ := h.2.usable_iff x
    unfold Connection.Spared Ending.Spares
    simp only [ho, true_implies, husable, ne_eq, hs, not_false_eq_true, false_implies, and_true]
  · exact iff_of_true (fun ho' => absurd ho' ho) fun ho' => absurd ho' ho

/-- A command is sent when nothing is unread. -/
private theorem wp_control_inner (hx : s.object a = some ⟨.nestedSubtransaction p, true⟩) (ht : s.current = some a)
    (hp : s.conn.pg.pipeline = false) (k : Control) {Q E : Connection DB → Prop}
    (hrefused : (s.conn.pg.isOpen = false ∨ s.conn.pg.stream ≠ []) → ∀ calls, E { s.conn with calls := calls })
    (hreturned : ∀ c : Connection DB, s.conn.pg.isOpen = true → s.conn.pg.stream = [] →
      c.Shows (s.conn.pg.session.control (W.commitRefused s.conn.pg.clock) k).1 [] → s.conn.Hears W →
      (s.conn.pg.session.control (W.commitRefused s.conn.pg.clock) k).2.ok = true → Q c)
    (hthrown : ∀ c : Connection DB, s.conn.pg.isOpen = true → s.conn.pg.stream = [] →
      c.pg.session = (s.conn.pg.session.control (W.commitRefused s.conn.pg.clock) k).1 →
      (c.pg.isOpen = false ↔ s.conn.Breaks W) →
      (s.conn.Hears W → (s.conn.pg.session.control (W.commitRefused s.conn.pg.clock) k).2.ok = false) → E c) :
    wp False (execute W a (.control k)) (fun _ s' => ∃ c, s' = { s with conn := c } ∧ Q c)
      (fun _ s' => ∃ c, s' = { s with conn := c } ∧ E c) s := by
  refine (wp_execute_current hx rfl ht _).2 ?_
  by_cases hsend : s.conn.pg.isOpen = true ∧ s.conn.pg.stream = []
  · obtain ⟨ho, hs⟩ := hsend
    exact wp_mono (Connection.wp_control_exact ⟨ho, rfl, hs, hp⟩ k)
      (fun _ c hc => ⟨c, rfl, hreturned c ho hs hc.1 hc.2.1 hc.2.2⟩)
      fun _ c hc => ⟨c, rfl, hthrown c ho hs hc.1 hc.2.1 hc.2.2⟩
  · have hs : s.conn.pg.isOpen = false ∨ s.conn.pg.stream ≠ [] := by
      by_cases ho : s.conn.pg.isOpen = true
      · exact .inr fun hs => hsend ⟨ho, hs⟩
      · exact .inl (by simpa using ho)
    rw [wp_bind]
    exact Connection.wp_sendParams_refused _ (hs.imp_right fun hs => ⟨hp, hs⟩)
      fun e call => ⟨_, rfl, hrefused hs _⟩

/-- `ROLLBACK TO`, sent or not. -/
private theorem wp_vRollback_inner (hx : s.object a = some ⟨.nestedSubtransaction p, true⟩) (ht : s.current = some a)
    (h : s.conn.pg.Within a x) (he : e ≠ .commit) :
    wp False (vRollback W a) (fun _ s' => ∃ c, s' = { s with conn := c } ∧ (c.Spared x ↔ e.Spares W s.conn x))
      (fun _ s' => ∃ c, s' = { s with conn := c } ∧ (c.Spared x ↔ e.Spares W s.conn x)) s := by
  have rolledBack (c : Connection DB) (hs : s.conn.pg.stream = [])
      (hc : c.pg.session = (s.conn.pg.session.control (W.commitRefused s.conn.pg.clock) (.rollbackTo a)).1) :
      c.Spared x ↔ e.Spares W s.conn x := by
    refine iff_of_true (fun _ => ?_) fun _ => ⟨fun hs' => absurd hs hs', fun _ he' => absurd he' he⟩
    rw [hc]
    exact Session.control_rollbackTo h.2 _
  simp only [vRollback, wp_bind, wp_deref, hx, Option.some.injEq, forall_eq', wp_pure, reduceCtorEq, false_implies,
    and_true]
  exact wp_control_inner hx ht h.1 _ (fun hs => spared_of_refused h hs e)
    (fun c _ hs hc _ _ => rolledBack c hs hc.session)
    fun c _ hs hc _ _ => rolledBack c hs hc

/-- `RELEASE SAVEPOINT`, sent or not. -/
private theorem wp_vCommit_inner (hi : s.Inner p a) (h : s.conn.pg.Within a x) :
    wp False (vCommit W a)
      (fun _ s' => ∃ c, s' = { s with conn := c } ∧
        (c.Spared s.conn.pg.session.content ↔ Ending.commit.Spares W s.conn x))
      (fun _ s' => ∃ c, s' = { s with conn := c } ∧ (c.Spared x ↔ Ending.commit.Spares W s.conn x)) s := by
  have spares (ho : s.conn.pg.isOpen = true) (hs : s.conn.pg.stream = []) : Ending.commit.Spares W s.conn x ↔
      s.conn.Breaks W ∨ s.conn.pg.session.failed = false ∧ (s.conn.Hears W ∨ s.conn.pg.session.content = x) := by
    simp [Ending.Spares, ho, hs]
  simp only [vCommit, wp_bind, wp_deref, hi.object, Option.some.injEq, forall_eq', wp_pure, reduceCtorEq, false_implies,
    and_true]
  refine wp_control_inner hi.object hi.current h.1 _ (fun hs => spared_of_refused h hs _) (fun c ho hs hc hh hok => ?_)
    fun c ho hs hc hb hok => ?_
  · have hf : s.conn.pg.session.failed = false := by
      by_contra hf
      rw [Session.control_release_failed (by simpa using hf)] at hok
      simp [PGresult.fatal, PGresult.plain, PGresult.ok] at hok
    refine iff_of_true (fun _ => ?_) ((spares ho hs).2 (.inr ⟨hf, .inl hh⟩))
    rw [hc.session]
    exact (Session.control_release h.2 hf _).2
  · rw [spares ho hs]
    cases hf : s.conn.pg.session.failed with
    | true =>
      -- the block is still failed, so that only losing the connection helps
      rw [Session.control_release_failed hf] at hc
      have hnot : ¬ c.pg.session.Usable x := hc ▸ Session.not_usable hf x
      unfold Connection.Spared
      rw [← hb]
      simp [hnot]
    | false =>
      -- the savepoint is released, but `commit` throws, as if the changes were gone
      obtain ⟨hok', husable⟩ := Session.control_release h.2 hf (W.commitRefused s.conn.pg.clock)
      have hh : ¬ s.conn.Hears W := fun hh => by
        rw [hok hh] at hok'
        cases hok'
      rw [← hc] at husable
      obtain ⟨b, hblock, hfb, hcontent⟩ := husable
      have hx : c.pg.session.Usable x ↔ s.conn.pg.session.content = x := by
        simp [Session.Usable, hblock, hfb, hcontent]
      unfold Connection.Spared
      rw [hx, ← hb]
      by_cases ho' : c.pg.isOpen = true <;> simp [ho', hh]

/-- `commit` and `rollback` end the object on both ways out. -/
private theorem wp_endWith_inner (hi : s.Inner p a) {z : Prog DB Unit} {Q E : Connection DB → Prop}
    (hz : wp False z (fun _ s' => ∃ c, s' = { s with conn := c } ∧ Q c)
      (fun _ s' => ∃ c, s' = { s with conn := c } ∧ E c) s) :
    wp False (endWith a z) (fun _ s' => s'.current = some p ∧ Q s'.conn)
      (fun _ s' => s'.current = some p ∧ E s'.conn) s := by
  simp only [endWith, wp_bind, wp_catchAll, wp_throw]
  rw [wp_check_current hi.object rfl hi.current]
  refine wp_mono hz (fun _ s' hs' => ?_) fun _ s' hs' => ?_
  · obtain ⟨c, rfl, hc⟩ := hs'
    rw [wp_vReset (hi.conn c).object rfl]
    exact ⟨rfl, hc⟩
  · obtain ⟨c, rfl, hc⟩ := hs'
    rw [wp_vReset (hi.conn c).object rfl]
    exact ⟨rfl, hc⟩

/-- The destructor rolls back if something can be sent, and makes what is below the object current. -/
private theorem wp_destructor_inner (hx : s.object a = some ⟨.nestedSubtransaction p, true⟩) (ht : s.current = some a)
    (h : s.conn.pg.Within a x) (release : Addr → Prog DB Unit) :
    wp False (destructor W release a)
      (fun _ s' => s'.current = some p ∧ (s'.conn.Spared x ↔ Ending.destroy.Spares W s.conn x) ∧ s'.held = s.held ∧
        ∃ connected, s'.object a = some ⟨.nestedSubtransaction p, connected⟩)
      (fun _ _ => False) s := by
  simp only [destructor, attemptRollbackInDtor, wp_bind, wp_deref, hx, Option.some.injEq, forall_eq', ↓reduceIte,
    wp_onConnection, reduceCtorEq, false_implies, and_true]
  rw [Connection.wp_attemptRollback, wp_ite]
  generalize hc : ({ s.conn with calls := .transactionStatus :: s.conn.calls } : Connection DB) = c
  have hpg : c.pg = s.conn.pg := by rw [← hc]
  have hspares : Ending.destroy.Spares W c x ↔ Ending.destroy.Spares W s.conn x := by
    unfold Ending.Spares
    simp only [hpg, reduceCtorEq, false_implies, implies_true]
  refine ⟨fun _ => ?_, fun hdeclined => ?_⟩
  · -- the rollback, whether it throws or not, and the reset of the object
    have reset (s' : State DB) (hs' : ∃ c', s' = { s with conn := c' } ∧
        (c'.Spared x ↔ Ending.destroy.Spares W s.conn x)) :
        wp False (vReset a) (fun _ s' => wp False (deregister a)
          (fun _ s' => s'.current = some p ∧ (s'.conn.Spared x ↔ Ending.destroy.Spares W s.conn x) ∧
            s'.held = s.held ∧ ∃ connected, s'.object a = some ⟨.nestedSubtransaction p, connected⟩)
          (fun _ _ => False) s') (fun _ _ => False) s' := by
      obtain ⟨c', rfl, hc'⟩ := hs'
      have hended : (({ s with conn := c' } : State DB).ended a ⟨.nestedSubtransaction p, true⟩).object a =
          some ⟨.nestedSubtransaction p, false⟩ := (State.object_insert { s with conn := c' } a _ a).trans (if_pos rfl)
      rw [wp_vReset (s := { s with conn := c' }) hx rfl]
      simp only [deregister, wp_bind, wp_deref, hended, Option.some.injEq, forall_eq', Bool.false_eq_true, ↓reduceIte,
        wp_pure, reduceCtorEq, false_implies, and_true]
      exact ⟨rfl, hc', rfl, _, rfl⟩
    simp only [rollbackInDtor, wp_bind, wp_catchAll]
    refine (wp_check_current (x := ⟨.nestedSubtransaction p, true⟩) (by exact hx) rfl (by exact ht)).2 ?_
    have hrollback := wp_vRollback_inner (W := W) (s := { s with conn := c }) (e := .destroy) hx ht
      (by rw [hpg]; exact h) (by simp)
    refine wp_mono hrollback (fun _ s' hs' => ?_) fun _ s' hs' => ?_
    · obtain ⟨c', rfl, hc'⟩ := hs'
      exact reset _ ⟨c', rfl, hc'.trans hspares⟩
    · obtain ⟨c', rfl, hc'⟩ := hs'
      have hx' : ({ s with conn := c' } : State DB).object a = some ⟨.nestedSubtransaction p, true⟩ := hx
      simp only [derefConnection, wp_bind, wp_deref, hx', Option.some.injEq, forall_eq', ↓reduceIte, wp_pure,
        reduceCtorEq, false_implies, and_true]
      exact reset _ ⟨c', rfl, hc'.trans hspares⟩
  · obtain ⟨b, rest, hb, -⟩ := h.2
    have hs : s.conn.pg.isOpen = false ∨ s.conn.pg.stream ≠ [] := by
      by_contra hs
      push Not at hs
      exact hdeclined (by simp [hs, hb])
    have hx' : ({ s with conn := c } : State DB).object a = some ⟨.nestedSubtransaction p, true⟩ := hx
    simp only [wp_pure, deregister, wp_bind, wp_deref, hx', Option.some.injEq, forall_eq', ↓reduceIte, wp_setCurrent,
      reduceCtorEq, false_implies, and_true]
    exact ⟨rfl, hc ▸ spared_of_refused h hs _ _, trivial, _, hx⟩

/-- The last handle is dropped. -/
private theorem wp_dropHandle_inner (hi : s.Inner p a) (h : s.conn.pg.Within a x) :
    wp False (dropHandle W a)
      (fun _ s' => s'.current = some p ∧ (s'.conn.Spared x ↔ Ending.destroy.Spares W s.conn x))
      (fun _ _ => False) s := by
  simp only [dropHandle, wp_bind, wp_modify, release, wp_get]
  generalize hs₁ : ({ s with held := s.held.erase a } : State DB) = s₁
  have hx : s₁.object a = some ⟨.nestedSubtransaction p, true⟩ := hs₁ ▸ hi.object
  have hp : p ∈ s₁.held := hs₁ ▸ hi.below
  have hu : s₁.unowned a = true := (s₁.unowned_eq_true a).2 (hs₁ ▸ hi.sole)
  have hconn : s₁.conn = s.conn := hs₁ ▸ rfl
  have ht : s₁.current = some a := hs₁ ▸ hi.current
  clear hs₁
  rw [← hconn] at h ⊢
  obtain ⟨n, hn⟩ : ∃ n, s.objects.keys.length = n + 1 :=
    Nat.exists_eq_succ_of_ne_zero (Nat.pos_iff_ne_zero.1 (List.length_pos_of_mem (State.mem_keys hi.object)))
  simp only [hn, releaseN, wp_bind, wp_get, hu, ↓reduceIte]
  refine wp_mono (wp_destructor_inner hx ht h _) (fun _ s₂ h₂ => ?_) fun _ _ => id
  obtain ⟨hcurrent, hspared, hheld, connected, hx₂⟩ := h₂
  simp only [wp_deref, hx₂, Option.some.injEq, forall_eq', wp_eraseObject, reduceCtorEq, false_implies, and_true]
  refine wp_releaseN_owns n (.inl ?_) ⟨hcurrent, hspared⟩
  show p ∈ s₂.held
  rw [hheld]
  exact hp

/-- Every ending makes the parent current again, and spares the block or not. -/
theorem Ending.wp_perform (hi : s.Inner p a) (h : s.conn.pg.Within a x) (e : Ending) :
    wp False (e.perform W a)
      (fun r s' => s'.current = some p ∧
        (s'.conn.Spared (if r then s.conn.pg.session.content else x) ↔ e.Spares W s.conn x))
      (fun _ _ => False) s := by
  cases e with
  | commit =>
    simp only [Ending.perform, TaoPQ.commit, wp_catchAll, wp_bind, wp_pure, Bool.false_eq_true, ↓reduceIte]
    exact wp_endWith_inner hi (Q := fun c => c.Spared s.conn.pg.session.content ↔ Ending.commit.Spares W s.conn x)
      (E := fun c => c.Spared x ↔ Ending.commit.Spares W s.conn x) (wp_vCommit_inner hi h)
  | rollback =>
    simp only [Ending.perform, TaoPQ.rollback, wp_catchAll, wp_bind, wp_pure, Bool.false_eq_true, ↓reduceIte]
    exact wp_endWith_inner hi (Q := fun c => c.Spared x ↔ Ending.rollback.Spares W s.conn x)
      (E := fun c => c.Spared x ↔ Ending.rollback.Spares W s.conn x)
      (wp_vRollback_inner hi.object hi.current h (by simp))
  | destroy =>
    simp only [Ending.perform, wp_bind, wp_pure, Bool.false_eq_true, ↓reduceIte]
    exact wp_dropHandle_inner hi h

end Ends

/-! ### How it begins -/

section Begins

variable {s₀ s : State DB} {p a : Addr} {o : Object}

/-- A subtransaction that was created inside a block, outside pipeline mode: its savepoint is made of the content that
the block had. -/
theorem inner_of_subtransaction (hs₀ : Reachable W s₀) (hl : (Call.subtransaction p a).Legal s₀)
    (hpipeline : s₀.conn.pg.pipeline = false) (hx : s₀.object p = some o) (hr : o.role ≠ .autocommitTransaction)
    (hctor : subtransaction W p a s₀ = .ret () s) :
    s.Inner p a ∧ s.conn.pg.Within a s₀.conn.pg.session.content := by
  suffices h : wp True (subtransaction W p a)
      (fun _ s => s.Inner p a ∧ s.conn.pg.Within a s₀.conn.pg.session.content) (fun _ _ => True) s₀ from wp_ret h hctor
  obtain ⟨⟨hheld, -⟩, hfree⟩ := hl
  have hunowned : ¬ s₀.Owns a := fun h => by simpa [show s₀.object a = none from hfree] using hs₀.owned.alive a h
  have hne : p ≠ a := by
    rintro rfl
    cases (show s₀.object p = none from hfree).symm.trans hx
  simp only [subtransaction, wp_bind, wp_checkCurrentTransaction, wp_deref, hx, Option.some.injEq, forall_eq', hr,
    ↓reduceIte, newSubtransaction, newSubtransactionBase, wp_get, implies_true, and_true]
  rintro ⟨-, hcurrent⟩
  simp only [hcurrent, wp_derefPointer_some, wp_putObject, wp_setCurrent, wp_catchAll, wp_bind, wp_hold]
  refine ⟨fun _ => ?_, fun _ => trivial⟩
  generalize hs₁ : ({ s₀ with
    objects := s₀.objects.insert a ⟨.nestedSubtransaction p, true⟩, current := some a } : State DB) = s₁
  have hobject : s₁.object a = some ⟨.nestedSubtransaction p, true⟩ := by
    rw [← hs₁]
    exact (State.object_insert s₀ a _ a).trans (if_pos rfl)
  have hcurrent₁ : s₁.current = some a := by rw [← hs₁]
  have hconn : s₁.conn = s₀.conn := by rw [← hs₁]
  have hheld₁ : s₁.held = s₀.held := by rw [← hs₁]
  have hunowned₁ : ¬ s₁.Owns a := by
    rw [← hs₁]
    rintro (h | ⟨x, y, hx, hy⟩ | ⟨b, k, hb, hk⟩)
    · exact hunowned (.inl h)
    · have hx := (State.object_insert s₀ a _ x).symm.trans hx
      split at hx
      · obtain rfl := Option.some.inj hx
        exact hne (Option.some.inj hy)
      · exact hunowned (.inr (.inl ⟨x, y, hx, hy⟩))
    · exact hunowned (.inr (.inr ⟨b, k, hb, hk⟩))
  clear hs₁
  rw [← hconn] at hpipeline ⊢
  have hfinal (c : Connection DB) (hc : c.pg.Within a s₁.conn.pg.session.content) :
      ({ s₁ with conn := c, held := a :: s₁.held } : State DB).Inner p a ∧ c.pg.Within a s₁.conn.pg.session.content := by
    refine ⟨⟨hobject, hcurrent₁, ?_, ?_⟩, hc⟩
    · simpa [hheld₁] using hheld
    · show ¬ ({ s₁ with conn := c, held := (a :: s₁.held).erase a } : State DB).Owns a
      rw [List.erase_cons_head]
      exact hunowned₁
  refine wp_mono (wp_weaken (wp_control_inner (Q := fun c => c.pg.Within a s₁.conn.pg.session.content)
    (E := fun _ => True) hobject hcurrent₁ hpipeline (.savepoint a) (fun _ _ => trivial)
    (fun c _ _ hc _ hok => ⟨hc.pipeline, ?_⟩) fun _ _ _ _ _ _ => trivial)) (fun _ s' hs' => ?_) fun _ _ _ => ?_
  · rw [hc.session]
    exact Session.control_savepoint hok
  · obtain ⟨c, rfl, hc⟩ := hs'
    exact hfinal c hc
  · exact wp_trivial (fun _ _ => trivial) fun _ _ => trivial

/-- Whatever is executed in a nested subtransaction, and however it then ends, the parent is current again.  The block is
usable, with the changes if a `commit` returned and without them otherwise, exactly when `Ending.Spares` holds before
the end. -/
theorem nested_spared_iff (hs₀ : Reachable W s₀) (hl : (Call.subtransaction p a).Legal s₀)
    (hpipeline : s₀.conn.pg.pipeline = false) (hx : s₀.object p = some o) (hr : o.role ≠ .autocommitTransaction)
    (hctor : subtransaction W p a s₀ = .ret () s) (us : List (Statement DB)) (e : Ending) :
    ∃ s₁, executeAll W a us s = .ret () s₁ ∧
      ∃ r s₂, e.perform W a s₁ = .ret r s₂ ∧ s₂.current = some p ∧
        (s₂.conn.Spared (if r then s₁.conn.pg.session.content else s₀.conn.pg.session.content) ↔
          e.Spares W s₁.conn s₀.conn.pg.session.content) := by
  obtain ⟨hi, hwithin⟩ := inner_of_subtransaction hs₀ hl hpipeline hx hr hctor
  obtain ⟨_, _, hexecuted, c, rfl, hc⟩ := exists_ret (wp_executeAll (W := W) hi hwithin us)
  refine ⟨_, hexecuted, ?_⟩
  obtain ⟨r, s₂, hended, hcurrent, hspared⟩ := exists_ret (e.wp_perform (W := W) (hi.conn c) hc)
  exact ⟨r, s₂, hended, hcurrent, hspared⟩

/-- A subtransaction in which a statement fails is rolled back. -/
theorem nested_spared_rolledBack : ∃ s₀ s : State Nat, subtransaction .calm 1 2 s₀ = .ret () s ∧
    ∃ s₁, executeAll .calm 2 [⟨"INSERT", .command (fun n => some (n + 1)) none⟩,
        ⟨"SELECT 1/0", .query (fun _ => none) 0 0⟩] s = .ret () s₁ ∧
      ∃ r s₂, Ending.rollback.perform .calm 2 s₁ = .ret r s₂ ∧ s₂.current = some 1 ∧
        (s₂.conn.Spared (if r then s₁.conn.pg.session.content else s₀.conn.pg.session.content) ↔
          Ending.rollback.Spares .calm s₁.conn s₀.conn.pg.session.content) := by
  obtain ⟨s₀, hs₀, hl, hpipeline, hx, hthrown, hleft⟩ := Reaches.of_trace .calm (fun _ _ => True)
    [.transaction 1 .defaultIsolationLevel .defaultAccessMode] 0
    (P := fun s => (Call.subtransaction 1 2).Legal s ∧ s.conn.pg.pipeline = false ∧
      s.object 1 = some ⟨.topLevelTransaction, true⟩ ∧ (subtransaction .calm 1 2 s).thrown.isNone = true ∧
      (subtransaction .calm 1 2 s).stateLeft.isSome = true) (by decide +kernel)
  obtain ⟨s, hctor⟩ : ∃ s, subtransaction .calm 1 2 s₀ = .ret () s := by
    cases hs : subtransaction .calm 1 2 s₀ with
    | ret _ s => exact ⟨s, rfl⟩
    | throw e s =>
      rw [hs] at hthrown
      cases hthrown
    | undefined =>
      rw [hs] at hleft
      cases hleft
  exact ⟨s₀, s, hctor, nested_spared_iff hs₀ hl hpipeline hx (by simp) hctor _ .rollback⟩

/-- A statement of the subtransaction fails, and `commit` is called: the block of the parent is failed. -/
theorem failed_commit_harms :
    ∃ s, trace .calm (fun _ _ => True)
        [.transaction 1 .defaultIsolationLevel .defaultAccessMode, .subtransaction 1 2,
          .execute 2 ⟨"SELECT 1/0", .query (fun _ => none) 0 0⟩, .commit 2] (State.init ()) = some s ∧
      s.current = some 1 ∧ s.conn.pg.isOpen = true ∧ s.conn.pg.session.failed = true := by
  have h : (trace .calm (fun _ _ => True)
      [.transaction 1 .defaultIsolationLevel .defaultAccessMode, .subtransaction 1 2,
        .execute 2 ⟨"SELECT 1/0", .query (fun _ => none) 0 0⟩, .commit 2] (State.init ())).any (fun s =>
      decide (s.current = some 1 ∧ s.conn.pg.isOpen = true ∧ s.conn.pg.session.failed = true)) = true := by
    decide +kernel
  obtain ⟨s, hs, h⟩ := (Option.any_eq_true _ _).1 h
  exact ⟨s, hs, of_decide_eq_true h⟩

end Begins

end TaoPQ
