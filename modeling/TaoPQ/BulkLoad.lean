import TaoPQ.CopyOut
import TaoPQ.Draining
import TaoPQ.TableWriter

/-!
# Bulk loads

A table writer loads its rows when `commit` returns, and in no other way: whatever the program does with it before it
is destroyed, the COPY is aborted otherwise (`bulk_load`).  The writer is loading, or the server has refused what it was
given, or it has committed and let go of the connection (`Writing`); each call leads from one of these phases to
another.  A call after a `commit` that returned follows a null pointer, and of a line of `2^31` bytes or more the server
receives a part at most (`bulk_load_fails`).
-/

namespace TaoPQ

open Exec

variable {DB : Type} {W : World}

namespace PGconn

variable {c : PGconn DB}

/-- A result announces a COPY FROM only if one is in progress. -/
theorem Proper.copyIn_of_getResult (h : c.Proper) {r : PGresult} (hr : c.getResult.2 = some r)
    (hs : r.status = .copyIn) : (∃ load rows received rest, c.stream = .copyIn load rows received :: rest) ∧
      c.getResult.1 = c ∧ c.isOpen = true := by
  unfold PGconn.getResult at hr ⊢
  split at hr
  · cases hr
  · rename_i ho
    split at hr
    · cases hr
    · rename_i x rest hstream
      obtain rfl := Option.some.inj hr
      exact absurd hs (h _ (hstream ▸ List.mem_cons_self)).1
    · cases hr
    · rename_i load rows received rest hstream
      rw [hstream]
      exact ⟨⟨load, rows, received, rest, rfl⟩, by simp at ho; simp [ho], by simpa using ho⟩
    · obtain rfl := Option.some.inj hr
      cases hs

private theorem not_copyIn_of_append {r : PGresult} {rest rest' : List (Item DB)} {load : List Chunk → DB → Option DB}
    {rows : List Chunk → Nat} {received : List Chunk} (hc : c.inCopy = false) :
    c.stream ++ .result r :: rest ≠ .copyIn load rows received :: rest' := by
  unfold inCopy at hc
  cases hs : c.stream with
  | nil => simp
  | cons i items =>
    intro h
    rw [hs] at hc
    obtain rfl := (List.cons.inj h).1
    cases hc

/-- When a COPY FROM is in progress behind a statement just sent, it is that of the statement, and nothing has been
received for it. -/
theorem send_copyFrom (byName : Bool) {u : Statement DB} {load : List Chunk → DB → Option DB} {rows : List Chunk → Nat}
    {received : List Chunk} {rest : List (Item DB)} (hsent : (c.send W byName (.user u)).2 = true)
    (hcopy : (c.send W byName (.user u)).1.stream = .copyIn load rows received :: rest) :
    u.body = .copyFrom load rows ∧ received = [] ∧ rest = [] ∧ c.session.failed = false ∧ c.isOpen = true ∧
      c.pipeline = false ∧ (c.send W byName (.user u)).1 = { c with stream := [.copyIn load rows []] } := by
  revert hsent hcopy
  unfold PGconn.send
  by_cases ho : c.isOpen = true
  · by_cases hp : c.pipeline = true
    · -- in pipeline mode, no COPY begins
      by_cases hc : c.inCopy = true
      · simp [ho, hp, hc]
      · have hc : c.inCopy = false := Bool.eq_false_iff.2 hc
        intro _ hcopy
        simp only [ho, hp, hc, Bool.not_true, Bool.false_eq_true, ↓reduceIte] at hcopy
        exfalso
        split at hcopy
        · exact not_copyIn_of_append hc hcopy
        · exact not_copyIn_of_append hc hcopy
    · have hp : c.pipeline = false := Bool.eq_false_iff.2 hp
      obtain ⟨text, body⟩ := u
      cases body <;> simp only [ho, hp, Bool.not_true, Bool.false_eq_true, ↓reduceIte, run, runUser]
      all_goals repeat' split
      all_goals simp_all
  · simp [ho]

end PGconn

/-! ### What the connection does -/

namespace Connection

variable {c c' : Connection DB} {σ : Session DB} {items rest : List (Item DB)} {load : List Chunk → DB → Option DB}
  {rows : List Chunk → Nat} {received : List Chunk}

theorem Shows.reads (h : c.Shows σ items) (hr : c.ReadsTo rest c') : c'.Shows σ rest := by
  obtain ⟨n, calls, rfl⟩ := hr
  exact ⟨h.isOpen, h.session, rfl, h.pipeline⟩

theorem Shows.accepts (h : c.Shows σ []) : c.Accepts W := by
  refine ⟨h.stream, fun byName cmd => ?_⟩
  simp [PGconn.send, h.isOpen, h.pipeline, h.stream]

/-- Waiting for the socket, in a reliable world. -/
private theorem wp_waitWhen_shows (hW : W.Reliable) (busy : PGconn DB → Bool) (h : c.Shows σ items)
    {E : Exn → Connection DB → Prop} : wp False (waitWhen W busy) (fun _ c' => c'.Shows σ items) E c :=
  wp_mono (wp_waitWhen_reads busy c) (fun _ _ hr => h.stream ▸ h.reads hr) fun _ _ hn => (hn hW).elim

/-- `connection::put_copy_data` hands a chunk over while the COPY is in progress, and fails otherwise. -/
theorem wp_putCopyData_loading (hW : W.Reliable) (h : c.Shows σ [.copyIn load rows received]) (data : Chunk)
    {E : Exn → Connection DB → Prop} :
    wp False (putCopyData W data) (fun _ c' => c'.Shows σ [.copyIn load rows (received ++ [passed data])]) E c := by
  simp only [putCopyData, wp_bind]
  refine wp_mono (wp_waitWhen_shows hW _ h) (fun _ c₁ h₁ => ?_) fun _ _ => id
  refine wp_libpqOr_true (by simp [PGconn.putCopyData, h₁.isOpen, h₁.stream]) ?_
  simp only [PGconn.putCopyData, h₁.isOpen, h₁.stream, Bool.not_true, Bool.false_eq_true, ↓reduceIte]
  exact ⟨rfl, h₁.session, rfl, h₁.pipeline⟩

theorem wp_putCopyData_idle (hW : W.Reliable) (h : c.Shows σ []) (data : Chunk) :
    wp False (putCopyData W data) (fun _ _ => False) (fun _ c' => c'.Shows σ []) c := by
  simp only [putCopyData, wp_bind]
  refine wp_mono (wp_waitWhen_shows hW _ h) (fun _ c₁ h₁ => ?_) fun _ _ => id
  simp only [libpqOr, wp_bind, wp_libpq, PGconn.putCopyData, h₁.isOpen, h₁.stream, Bool.not_true, Bool.false_eq_true,
    ↓reduceIte, wp_throw]
  exact ⟨h₁.isOpen, h₁.session, h₁.stream, h₁.pipeline⟩

/-- The session and the answer after the end of a COPY FROM. -/
def copyEnd (σ : Session DB) (load : List Chunk → DB → Option DB) (rows : List Chunk → Nat) (received : List Chunk) :
    Option String → Session DB × PGresult
  | some _ => (σ.fail, .fatal)
  | none => σ.run (load received) ⟨.commandOk, .other, 0, 0, some (rows received)⟩

/-- `connection::put_copy_end` ends the COPY, with an error message or without. -/
theorem wp_putCopyEnd_loading (hW : W.Reliable) (h : c.Shows σ [.copyIn load rows received]) (m : Option String)
    {E : Exn → Connection DB → Prop} :
    wp False (putCopyEnd W m) (fun _ c' => c'.Shows (copyEnd σ load rows received m).1
      [.result (copyEnd σ load rows received m).2, .null]) E c := by
  simp only [putCopyEnd, wp_bind]
  refine wp_mono (wp_waitWhen_shows hW _ h) (fun _ c₁ h₁ => ?_) fun _ _ => id
  have hend : c₁.pg.putCopyEnd m = ({ c₁.pg with
      session := (copyEnd σ load rows received m).1
      stream := [.result (copyEnd σ load rows received m).2, .null] }, true) := by
    cases m <;> simp [PGconn.putCopyEnd, copyEnd, h₁.isOpen, h₁.stream, h₁.session]
  refine wp_libpqOr_true (by rw [hend]) ?_
  rw [hend]
  exact ⟨h₁.isOpen, rfl, rfl, h₁.pipeline⟩

theorem wp_putCopyEnd_idle (hW : W.Reliable) (h : c.Shows σ []) (m : Option String) :
    wp False (putCopyEnd W m) (fun _ _ => False) (fun _ c' => c'.Shows σ []) c := by
  simp only [putCopyEnd, wp_bind]
  refine wp_mono (wp_waitWhen_shows hW _ h) (fun _ c₁ h₁ => ?_) fun _ _ => id
  simp only [libpqOr, wp_bind, wp_libpq, PGconn.putCopyEnd, h₁.isOpen, h₁.stream, Bool.not_true, Bool.false_eq_true,
    ↓reduceIte, wp_throw]
  exact ⟨h₁.isOpen, h₁.session, h₁.stream, h₁.pipeline⟩

private theorem wp_getResult_shows (hW : W.Reliable) {r : PGresult} (h : c.Shows σ (.result r :: rest))
    {E : Exn → Connection DB → Prop} :
    wp False (getResult W) (fun v c' => v = some r ∧ c'.Shows σ rest) E c :=
  wp_mono (wp_getResult_next h.isOpen h.stream) (fun _ _ hr => ⟨hr.1, h.reads hr.2⟩) fun _ _ hn => (hn hW).elim

private theorem wp_consumeEmptyResult_shows (hW : W.Reliable) (h : c.Shows σ (.null :: rest))
    {E : Exn → Connection DB → Prop} : wp False (consumeEmptyResult W) (fun _ c' => c'.Shows σ rest) E c :=
  wp_mono (wp_consumeEmptyResult_next h.isOpen h.stream) (fun _ _ hr => h.reads hr) fun _ _ hn => (hn hW).elim

/-- The answer to a COPY that was ended is read to its end. -/
theorem wp_fetchResult_ended (hW : W.Reliable) {r : PGresult} (h : c.Shows σ [.result r, .null])
    (hr : r.status = .commandOk ∨ r.status = .fatalError) :
    wp False (fetchResult W) (fun v c' => v = r ∧ r.status = .commandOk ∧ c'.Shows σ [])
      (fun _ c' => r.status = .fatalError ∧ c'.Shows σ []) c := by
  simp only [fetchResult, wp_bind]
  refine wp_mono (wp_getResult_shows hW h) (fun v c₁ h₁ => ?_) fun _ _ => id
  obtain ⟨rfl, h₁⟩ := h₁
  rcases hr with hr | hr
  · simp only [hr, wp_bind]
    refine wp_mono (wp_consumeEmptyResult_shows hW h₁) (fun _ c₂ h₂ => ?_) fun _ _ => id
    simp only [result, hr, wp_pure]
    exact ⟨trivial, trivial, h₂⟩
  · simp only [hr, wp_bind]
    refine wp_mono (wp_consumeEmptyResult_shows hW h₁) (fun _ c₂ h₂ => ?_) fun _ _ => id
    simp only [result, hr, wp_throw]
    exact ⟨trivial, h₂⟩

/-- Nothing can be read when nothing was sent. -/
theorem wp_fetchResult_idle (hW : W.Reliable) (h : c.Shows σ []) :
    wp False (fetchResult W) (fun _ _ => False) (fun _ c' => c'.Shows σ []) c := by
  have hread : wp False (getResult W) (fun v c' => v = none ∧ c'.Shows σ []) (fun _ _ => False) c := by
    have hnone (n : Nat) : ({ c.pg with clock := n } : PGconn DB).getResult =
        ({ c.pg with stream := [], clock := n }, none) := by
      simp [PGconn.getResult, h.isOpen, h.stream]
    exact wp_mono (wp_getResult_reads hnone) (fun v c' hr => ⟨hr.1, h.reads hr.2⟩) fun _ _ hn => hn hW
  simp only [fetchResult, wp_bind]
  refine wp_mono hread (fun v c₁ h₁ => ?_) fun _ _ => False.elim
  obtain ⟨rfl, h₁⟩ := h₁
  exact h₁

/-- `get_result` aborts a COPY that is still in progress. -/
theorem wp_fetchResult_loading (hW : W.Reliable) (h : c.Shows σ [.copyIn load rows received]) :
    wp False (fetchResult W) (fun _ _ => False) (fun _ c' => c'.Shows σ.fail []) c := by
  have hread : wp False (getResult W) (fun v c' => v = some (.plain .copyIn .other) ∧
      c'.Shows σ [.copyIn load rows received]) (fun _ _ => False) c := by
    have hcopy (n : Nat) : ({ c.pg with clock := n } : PGconn DB).getResult =
        ({ c.pg with stream := [.copyIn load rows received], clock := n }, some (.plain .copyIn .other)) := by
      simp [PGconn.getResult, h.isOpen, h.stream]
    exact wp_mono (wp_getResult_reads hcopy) (fun v c' hr => ⟨hr.1, h.reads hr.2⟩) fun _ _ hn => hn hW
  simp only [fetchResult, wp_bind]
  refine wp_mono hread (fun v c₁ h₁ => ?_) fun _ _ => False.elim
  obtain ⟨rfl, h₁⟩ := h₁
  simp only [PGresult.plain, wp_bind]
  refine wp_mono (wp_putCopyEnd_loading hW h₁ _) (fun _ c₂ h₂ => ?_) fun _ _ => id
  simp only [getFatalError, wp_bind]
  refine wp_mono (wp_getResult_shows hW h₂) (fun v c₃ h₃ => ?_) fun _ _ => id
  obtain ⟨rfl, h₃⟩ := h₃
  simp only [copyEnd, PGresult.fatal, PGresult.plain, ↓reduceIte, wp_pure]
  refine wp_mono (wp_consumeEmptyResult_shows hW h₃) (fun _ c₄ h₄ => ?_) fun _ _ => id
  exact h₄

end Connection

/-! ### The guard -/

namespace State

/-- The table writer at `b` holds the connection by its guard `g`, above the transaction `o` of the program. -/
structure Writes (s : State DB) (b : Nat) (o g : Addr) : Prop where
  bulk : s.bulk b = some ⟨false, some o, some g, 0, none⟩
  guard : s.object g = some ⟨.transactionGuard o, true⟩
  current : s.current = some g
  held : o ∈ s.held
  sole : g ∉ s.held ∧ (∀ x y, s.object x = some y → y.role.previous ≠ some g) ∧
    ∀ b' k, s.bulk b' = some k → b' ≠ b → k.previous ≠ some g ∧ k.transaction ≠ some g

/-- The table writer at `b` has let go of the connection, and the transaction `o` of the program is current again. -/
structure LetGo (s : State DB) (b : Nat) (o : Addr) : Prop where
  bulk : s.bulk b = some ⟨false, none, none, 0, none⟩
  current : s.current = some o

variable {s : State DB} {b : Nat} {o g : Addr}

theorem Writes.ne (h : s.Writes b o g) : o ≠ g := fun hog => h.sole.1 (hog ▸ h.held)

theorem Writes.conn (h : s.Writes b o g) (c : Connection DB) : ({ s with conn := c } : State DB).Writes b o g :=
  ⟨h.bulk, h.guard, h.current, h.held, h.sole⟩

end State

section Guard

variable {s : State DB} {b : Nat} {o g : Addr}

/-- The writer follows its pointers. -/
theorem wp_guardOf_writes {ub : Prop} (h : s.Writes b o g) {Q : Addr → State DB → Prop} {E : Exn → State DB → Prop} :
    wp ub (guardOf b) Q E s ↔ Q g s := by
  simp [guardOf, derefConnection, h.bulk, h.guard]

/-- The state after the guard is gone. -/
private def unguarded (s : State DB) (b : Nat) (o g : Addr) : State DB :=
  { s with
    bulks := s.bulks.insert b ⟨false, some o, none, 0, none⟩
    current := some o
    objects := s.objects.erase g }

/-- When the writer gives up its reference to the guard, the guard is destroyed, and what was current before it becomes
current again. -/
private theorem wp_resetTransaction_writes (h : s.Writes b o g) {E : Exn → State DB → Prop} :
    wp False (resetTransaction W b) (fun _ s' => s' = unguarded s b o g) E s := by
  simp only [resetTransaction, wp_bind, wp_derefBulk, h.bulk, Option.some.injEq, forall_eq', wp_putBulk, reduceCtorEq,
    false_implies, and_true]
  generalize hs₁ : ({ s with bulks := s.bulks.insert b ⟨false, some o, none, 0, none⟩ } : State DB) = s₁
  have hguard : s₁.object g = some ⟨.transactionGuard o, true⟩ := by
    rw [← hs₁]
    exact h.guard
  have hunowned : s₁.unowned g = true := by
    rw [State.unowned_eq_true, ← hs₁]
    rintro (hg | ⟨x, y, hx, hy⟩ | ⟨b', k, hb, hk⟩)
    · exact h.sole.1 hg
    · exact h.sole.2.1 x y hx hy
    · rw [State.bulk_insert] at hb
      split at hb
      · obtain rfl := Option.some.inj hb
        rcases hk with hk | hk
        · exact h.ne (Option.some.inj hk)
        · cases hk
      · rename_i hne
        exact hk.elim (h.sole.2.2 b' k hb hne).1 (h.sole.2.2 b' k hb hne).2
  obtain ⟨n, hn⟩ : ∃ n, s₁.objects.keys.length = n + 1 :=
    Nat.exists_eq_succ_of_ne_zero (List.length_pos_of_mem (State.mem_keys hguard)).ne'
  simp only [release, wp_bind, wp_get, hn, releaseN, hunowned, ↓reduceIte, destructor, deregister, wp_deref, hguard,
    Option.some.injEq, forall_eq', wp_setCurrent, reduceCtorEq, false_implies, and_true]
  have hguard' : ({ s₁ with current := (Role.transactionGuard o).previous } : State DB).object g =
      some ⟨.transactionGuard o, true⟩ := hguard
  simp only [hguard', Option.some.injEq, forall_eq', wp_eraseObject, reduceCtorEq, false_implies, and_true]
  refine wp_releaseN_owns n (.inl ?_) ?_
  · rw [← hs₁]
    exact h.held
  · rw [← hs₁]
    rfl

/-- A writer that has given up its guard can give up the transaction below it as well. -/
private theorem wp_resetPrevious_unguarded (h : s.Writes b o g) {Q : Unit → State DB → Prop} {E : Exn → State DB → Prop}
    (hQ : ∀ s' : State DB, s'.conn = s.conn → s'.LetGo b o → Q () s') :
    wp False (resetPrevious W b) Q E (unguarded s b o g) := by
  have hbulk : (unguarded s b o g).bulk b = some ⟨false, some o, none, 0, none⟩ :=
    (State.bulk_insert s b _ b).trans (if_pos rfl)
  simp only [resetPrevious, wp_bind, wp_derefBulk, hbulk, Option.some.injEq, forall_eq', wp_putBulk, reduceCtorEq,
    false_implies, and_true]
  refine wp_release_owns (.inl ?_) (hQ _ ?_ ⟨?_, ?_⟩)
  · exact h.held
  · rfl
  · exact (State.bulk_insert (unguarded s b o g) b _ b).trans (if_pos rfl)
  · rfl

/-- `commit` ends by letting go of the connection. -/
theorem wp_resetBoth_writes (h : s.Writes b o g) {Q : Unit → State DB → Prop} {E : Exn → State DB → Prop}
    (hQ : ∀ s' : State DB, s'.conn = s.conn → s'.LetGo b o → Q () s') :
    wp False (resetTransaction W b) (fun _ => wp False (resetPrevious W b) Q E) E s := by
  refine wp_mono (wp_resetTransaction_writes h) (fun _ s₁ h₁ => ?_) fun _ _ => id
  subst h₁
  exact wp_resetPrevious_unguarded h hQ

/-- A destroyed writer leaves the transaction below it current. -/
theorem wp_destroyMembers_writes (h : s.Writes b o g) {E : Exn → State DB → Prop} :
    wp False (destroyMembers W b) (fun _ s' => s'.conn = s.conn ∧ s'.current = some o) E s := by
  simp only [destroyMembers, wp_bind, wp_modify]
  exact wp_resetBoth_writes h fun s' hconn hgo => ⟨hconn, hgo.current⟩

theorem wp_destroyMembers_letGo (h : s.LetGo b o) {E : Exn → State DB → Prop} :
    wp False (destroyMembers W b) (fun _ s' => s'.conn = s.conn ∧ s'.current = some o) E s := by
  have hbulk : ({ s with bulks := s.bulks.insert b ⟨false, none, none, 0, none⟩ } : State DB).bulk b =
      some ⟨false, none, none, 0, none⟩ := (State.bulk_insert s b _ b).trans (if_pos rfl)
  simp only [destroyMembers, resetTransaction, resetPrevious, wp_bind, wp_derefBulk, h.bulk, hbulk, Option.some.injEq,
    forall_eq', wp_putBulk, wp_pure, wp_modify, reduceCtorEq, false_implies, and_true]
  exact ⟨trivial, h.current⟩

end Guard

/-! ### Using a writer -/

/-- The calls on a table writer.  A row that is inserted has at least one argument. -/
inductive WriterCall where
  | insert (t : Param) (ts : List Param)
  | insertRaw (data : Chunk)
  | commit

/-- What became of a call: data was handed over, or the number of rows was returned, or an exception was thrown. -/
inductive Written where
  | stored (data : Chunk)
  | committed (rows : Nat)
  | failed
  deriving DecidableEq, Repr

namespace WriterCall

/-- The data that is handed over. -/
def data : WriterCall → Chunk
  | insert t ts => (TableWriter.insertIndexed (t :: ts)).getD []
  | insertRaw data => data
  | commit => []

def perform (W : World) (b : Nat) (c : WriterCall) : Prog DB Written :=
  match c with
  | insert t ts => do
    TableWriter.insert W b (t :: ts)
    return .stored c.data
  | insertRaw data => do
    TaoPQ.insertRaw W b data
    return .stored c.data
  | commit => do
    let rows ← writerCommit W b
    return .committed rows

end WriterCall

/-- One call after the other, whether they return or throw. -/
def useWriter (W : World) (b : Nat) : List WriterCall → Prog DB (List Written)
  | [] => return []
  | c :: cs => do
    let w ← Exec.catchAll (c.perform W b) (fun _ => return .failed)
    let ws ← useWriter W b cs
    return w :: ws

namespace Written

def data : Written → Option Chunk
  | stored data => some data
  | committed _ => none
  | failed => none

/-- The data that was handed over. -/
def storedOf (ws : List Written) : List Chunk := ws.filterMap data

/-- What libpq has taken of it. -/
def passedOf (ws : List Written) : List Chunk := (storedOf ws).map passed

/-- Some `commit` has returned. -/
def Committed (ws : List Written) : Prop := ∃ n, committed n ∈ ws

theorem storedOf_append (ws : List Written) (w : Written) : storedOf (ws ++ [w]) = storedOf ws ++ w.data.toList := by
  cases w <;> simp [storedOf, data]

theorem passedOf_append (ws : List Written) (w : Written) :
    passedOf (ws ++ [w]) = passedOf ws ++ (w.data.map passed).toList := by
  rw [passedOf, storedOf_append, List.map_append]
  cases w <;> rfl

/-- Short data is taken as it is. -/
theorem passedOf_eq (ws : List Written) (hws : ∀ data ∈ storedOf ws, data.length < 2 ^ 31) :
    passedOf ws = storedOf ws := by
  refine (List.map_congr_left fun data hdata => ?_).trans (List.map_id _)
  exact (passed_eq_self_iff data).2 (hws data hdata)

theorem committed_append (ws : List Written) (w : Written) :
    Committed (ws ++ [w]) ↔ Committed ws ∨ ∃ n, w = committed n := by
  simp only [Committed, List.mem_append, List.mem_singleton, exists_or]
  exact or_congr Iff.rfl (exists_congr fun n => eq_comm)

end Written

/-- A table writer in use on a COPY that began in the session `σ`, after calls that came to `ws`. -/
inductive Writing (load : List Chunk → DB → Option DB) (rows : List Chunk → Nat) (σ : Session DB) (b : Nat)
    (o g : Addr) (ws : List Written) (s : State DB) : Prop where
  | loading (hw : s.Writes b o g) (hn : ¬ Written.Committed ws)
      (hc : s.conn.Shows σ [.copyIn load rows (Written.passedOf ws)])
  | refused (hw : s.Writes b o g) (hn : ¬ Written.Committed ws) (hc : s.conn.Shows σ.fail [])
  | loaded (σ' : Session DB) (hw : s.LetGo b o) (hn : Written.Committed ws)
      (hrows : ∀ n, .committed n ∈ ws → n = rows (Written.passedOf ws))
      (hload : load (Written.passedOf ws) σ.content = some σ'.content) (hc : s.conn.Shows σ' [])

/-- In a session that has not failed, a statement changes the content, or fails. -/
theorem Session.run_cases {σ : Session DB} (hf : σ.failed = false) (effect : DB → Option DB) (ok : PGresult) :
    (effect σ.content = some (σ.run effect ok).1.content ∧ (σ.run effect ok).2 = ok) ∨
      σ.run effect ok = (σ.fail, .fatal) := by
  obtain ⟨committed, block, prepared⟩ := σ
  cases block with
  | none =>
    cases h : effect committed with
    | none => exact .inr (by simp [run, fail, h])
    | some db => exact .inl (by simp [run, content, h])
  | some x =>
    have hx : x.failed = false := by simpa [failed] using hf
    cases h : effect x.content with
    | none => exact .inr (by simp [run, fail, h, hx])
    | some db => exact .inl (by simp [run, content, h, hx])

/-- In a session that has not failed, a statement that has an effect succeeds. -/
theorem Session.run_of_some {DB : Type} {σ : Session DB} (hf : σ.failed = false) {effect : DB → Option DB} {db : DB}
    (h : effect σ.content = some db) (ok : PGresult) :
    (σ.run effect ok).1.content = db ∧ (σ.run effect ok).2 = ok := by
  obtain ⟨committed, block, prepared⟩ := σ
  cases block with
  | none =>
    have h : effect committed = some db := h
    simp [run, content, h]
  | some x =>
    have h : effect x.content = some db := h
    have hx : x.failed = false := by simpa [failed] using hf
    simp [run, content, h, hx]

section Step

variable {load : List Chunk → DB → Option DB} {rows : List Chunk → Nat} {σ : Session DB} {b : Nat} {o g : Addr}
  {ws : List Written} {s : State DB}

/-- A writer in use, until a `commit` returns. -/
private theorem Writing.failed (h : Writing load rows σ b o g ws s) (hn : ¬ Written.Committed ws) {c : Connection DB}
    (hc : c.Shows σ [.copyIn load rows (Written.passedOf ws)] ∨ c.Shows σ.fail []) :
    Writing load rows σ b o g (ws ++ [.failed]) { s with conn := c } := by
  have hn' : ¬ Written.Committed (ws ++ [.failed]) := by simpa [Written.committed_append] using hn
  have hw : s.Writes b o g := by
    cases h with
    | loading hw => exact hw
    | refused hw => exact hw
    | loaded σ' hw hn' => exact absurd hn' hn
  rcases hc with hc | hc
  · exact .loading (hw.conn c) hn' (by simpa [Written.passedOf_append, Written.data] using hc)
  · exact .refused (hw.conn c) hn' hc

/-- Data is handed over while the COPY is in progress. -/
private theorem wp_insertRaw_writing (hW : W.Reliable) (h : Writing load rows σ b o g ws s)
    (hn : ¬ Written.Committed ws) (data : Chunk) :
    wp False (insertRaw W b data) (fun _ s' => Writing load rows σ b o g (ws ++ [.stored data]) s')
      (fun _ s' => Writing load rows σ b o g (ws ++ [.failed]) s') s := by
  cases h with
  | loaded σ' hw hn' => exact absurd hn' hn
  | loading hw _ hc =>
    simp only [insertRaw, wp_bind, wp_guardOf_writes hw, wp_onConnection]
    refine wp_mono (Connection.wp_putCopyData_loading hW hc data) (fun _ c hc' => ?_) fun _ _ => id
    refine .loading (hw.conn c) (by simpa [Written.committed_append] using hn) ?_
    simpa [Written.passedOf_append, Written.data] using hc'
  | refused hw _ hc =>
    simp only [insertRaw, wp_bind, wp_guardOf_writes hw, wp_onConnection]
    refine wp_mono (Connection.wp_putCopyData_idle hW hc data) (fun _ _ => False.elim) fun _ c hc' => ?_
    exact .failed (.refused hw hn hc) hn (.inr hc')

/-- The server loads what it has received, and the writer lets go of the connection. -/
theorem wp_writerCommit_loads {received : List Chunk} (hW : W.Reliable) (hw : s.Writes b o g)
    (hc : s.conn.Shows σ [.copyIn load rows received]) (hf : σ.failed = false) {db : DB}
    (hload : load received σ.content = some db) {E : Exn → State DB → Prop} :
    wp False (writerCommit W b) (fun n s' => n = rows received ∧ s'.LetGo b o ∧
      ∃ σ', σ'.content = db ∧ s'.conn.Shows σ' []) E s := by
  simp only [writerCommit, wp_bind, wp_guardOf_writes hw, wp_onConnection]
  refine wp_mono (Connection.wp_putCopyEnd_loading hW hc none) (fun _ c hc' => ?_) fun _ _ => id
  have hwc := hw.conn c
  simp only [getResult, wp_bind]
  rw [wp_check_current hwc.guard rfl hwc.current]
  simp only [wp_onConnection]
  obtain ⟨hcontent, hok⟩ :=
    Session.run_of_some hf hload ⟨.commandOk, .other, 0, 0, some (rows received)⟩
  simp only [Connection.copyEnd, hok] at hc'
  refine wp_mono (Connection.wp_fetchResult_ended hW hc' (.inl rfl)) (fun v c₁ h₁ => ?_) fun _ _ h₁ => by cases h₁.1
  obtain ⟨rfl, -, h₁⟩ := h₁
  simp only [rowsAffected, wp_pure]
  exact wp_resetBoth_writes (hw.conn c₁) fun s' hconn hgo => ⟨trivial, hgo, _, hcontent, by rw [hconn]; exact h₁⟩

/-- `commit` returns when the rows are loaded, with their number, and lets go of the connection. -/
private theorem wp_writerCommit_writing (hW : W.Reliable) (hf : σ.failed = false) (h : Writing load rows σ b o g ws s)
    (hn : ¬ Written.Committed ws) :
    wp False (writerCommit W b) (fun n s' => Writing load rows σ b o g (ws ++ [.committed n]) s')
      (fun _ s' => Writing load rows σ b o g (ws ++ [.failed]) s') s := by
  cases h with
  | loaded σ' hw hn' => exact absurd hn' hn
  | refused hw _ hc =>
    simp only [writerCommit, wp_bind, wp_guardOf_writes hw, wp_onConnection]
    refine wp_mono (Connection.wp_putCopyEnd_idle hW hc none) (fun _ _ => False.elim) fun _ c hc' => ?_
    exact .failed (.refused hw hn hc) hn (.inr hc')
  | loading hw _ hc =>
    rcases Session.run_cases hf (load (Written.passedOf ws))
      ⟨.commandOk, .other, 0, 0, some (rows (Written.passedOf ws))⟩ with ⟨hload, -⟩ | hrefused
    · refine wp_mono (wp_writerCommit_loads hW hw hc hf hload) (fun n s' h' => ?_) fun _ _ => id
      obtain ⟨rfl, hgo, σ', hσ', hc'⟩ := h'
      have hcommitted := (Written.committed_append ws (.committed (rows (Written.passedOf ws)))).2 (.inr ⟨_, rfl⟩)
      refine .loaded σ' hgo hcommitted (fun n hmem => ?_) ?_ hc'
      · rcases List.mem_append.1 hmem with hmem | hmem
        · exact absurd ⟨n, hmem⟩ hn
        · obtain rfl := Written.committed.inj (List.mem_singleton.1 hmem)
          simp [Written.passedOf_append, Written.data]
      · simpa [Written.passedOf_append, Written.data, hσ'] using hload
    · -- the server refuses what it was given
      simp only [writerCommit, wp_bind, wp_guardOf_writes hw, wp_onConnection]
      refine wp_mono (Connection.wp_putCopyEnd_loading hW hc none) (fun _ c hc' => ?_) fun _ _ => id
      have hwc := hw.conn c
      simp only [getResult, wp_bind]
      rw [wp_check_current hwc.guard rfl hwc.current]
      simp only [wp_onConnection]
      simp only [Connection.copyEnd, hrefused] at hc'
      refine wp_mono (Connection.wp_fetchResult_ended hW hc' (.inr rfl)) (fun v c₁ h₁ => by cases h₁.2.1)
        fun _ c₁ h₁ => ?_
      exact .failed (.loading hw hn hc) hn (.inr h₁.2)

/-- One call. -/
theorem writerCall_writing (hW : W.Reliable) (hf : σ.failed = false) (h : Writing load rows σ b o g ws s)
    (hn : ¬ Written.Committed ws) (c : WriterCall) :
    ∃ w s', Exec.catchAll (c.perform W b) (fun _ => return .failed) s = .ret w s' ∧
      Writing load rows σ b o g (ws ++ [w]) s' := by
  refine exists_ret ?_
  rw [wp_catchAll]
  have stored (data : Chunk) : wp False (do insertRaw W b data; return Written.stored data)
      (fun w s' => Writing load rows σ b o g (ws ++ [w]) s')
      (fun _ s' => wp False (return Written.failed : Prog DB Written)
        (fun w s' => Writing load rows σ b o g (ws ++ [w]) s') (fun _ _ => False) s') s := by
    rw [wp_bind]
    exact wp_mono (wp_insertRaw_writing hW h hn data) (fun _ _ => id) fun _ _ => id
  cases c with
  | insert t ts =>
    obtain ⟨line, hline, -⟩ : ∃ line, TableWriter.insertIndexed (t :: ts) = some line ∧ True :=
      ⟨_, TableWriter.insertIndexed_eq t ts, trivial⟩
    simp only [WriterCall.perform, WriterCall.data, TableWriter.insert, hline]
    exact stored line
  | insertRaw data => exact stored data
  | commit =>
    simp only [WriterCall.perform, wp_bind]
    exact wp_mono (wp_writerCommit_writing hW hf h hn) (fun _ _ => id) fun _ _ => id

/-- A call after a `commit` that returned follows a null pointer. -/
theorem writerCall_committed (h : Writing load rows σ b o g ws s) (hn : Written.Committed ws) (c : WriterCall) :
    Exec.catchAll (c.perform W b) (fun _ => return .failed) s = .undefined := by
  have hgo : s.LetGo b o := by
    cases h with
    | loading _ hn' => exact absurd hn hn'
    | refused _ hn' => exact absurd hn hn'
    | loaded _ hw => exact hw
  refine eq_undefined ?_
  rw [wp_catchAll]
  have raw (data : Chunk) {Q : Unit → State DB → Prop} {E : Exn → State DB → Prop} :
      wp True (insertRaw W b data) Q E s := by
    simp [insertRaw, guardOf, hgo.bulk]
  cases c with
  | insert t ts =>
    simp only [WriterCall.perform, wp_bind, TableWriter.insert, TableWriter.insertIndexed_eq]
    exact raw _
  | insertRaw data =>
    simp only [WriterCall.perform, wp_bind]
    exact raw _
  | commit => simp [WriterCall.perform, writerCommit, guardOf, hgo.bulk]

/-- The calls `cs` include one that is made after a `commit` has returned. -/
def CallsReleased (W : World) (b : Nat) (ws : List Written) (cs : List WriterCall) (s : State DB) : Prop :=
  ∃ before c after ws' s', cs = before ++ c :: after ∧ useWriter W b before s = .ret ws' s' ∧
    Written.Committed (ws ++ ws')

/-- A sequence of calls. -/
theorem useWriter_writing (hW : W.Reliable) (hf : σ.failed = false) (h : Writing load rows σ b o g ws s)
    (cs : List WriterCall) :
    wp (CallsReleased W b ws cs s) (useWriter W b cs) (fun ws' s' => Writing load rows σ b o g (ws ++ ws') s')
      (fun _ _ => False) s := by
  induction cs generalizing ws s with
  | nil =>
    rw [useWriter, wp_pure, List.append_nil]
    exact h
  | cons c cs ih =>
    by_cases hn : Written.Committed ws
    · have hundefined := writerCall_committed (W := W) h hn c
      unfold wp
      rw [useWriter, bind_undefined hundefined]
      exact ⟨[], c, cs, [], s, rfl, rfl, by simpa using hn⟩
    · obtain ⟨w, s₁, hs₁, h₁⟩ := writerCall_writing hW hf h hn c
      unfold wp
      rw [useWriter, bind_ret hs₁]
      show wp _ (useWriter W b cs >>= fun ws' => return w :: ws') _ _ s₁
      rw [wp_bind]
      refine Outcome.Sat.mono (ih h₁) ?_ (fun ws' s' h' => ?_) fun _ _ => id
      · rintro ⟨before, c', after, ws', s', rfl, hbefore, hcommitted⟩
        refine ⟨c :: before, c', after, w :: ws', s', rfl, ?_, by simpa using hcommitted⟩
        rw [useWriter, bind_ret hs₁, bind_ret hbefore]
        rfl
      · rw [wp_pure]
        simpa using h'

/-- Behind a call that is made too late, there is no behaviour. -/
theorem useWriter_released (hW : W.Reliable) (hf : σ.failed = false) (h : Writing load rows σ b o g ws s)
    {cs : List WriterCall} (hcs : CallsReleased W b ws cs s) : useWriter W b cs s = .undefined := by
  obtain ⟨before, c, after, ws', s', rfl, hbefore, hcommitted⟩ := hcs
  have hlate : useWriter W b (c :: after) s' = .undefined := by
    have hwriting := wp_ret (useWriter_writing hW hf h before) hbefore
    rw [useWriter, bind_undefined (writerCall_committed hwriting hcommitted c)]
  clear hcommitted h
  induction before generalizing s ws' with
  | nil =>
    obtain ⟨rfl, rfl⟩ := Outcome.ret.inj hbefore
    exact hlate
  | cons c' before ih =>
    rw [useWriter] at hbefore
    rw [List.cons_append, useWriter]
    cases hcall : Exec.catchAll (c'.perform W b) (fun _ => return .failed) s with
    | ret w s₁ =>
      rw [bind_ret hcall] at hbefore ⊢
      cases hrest : useWriter W b before s₁ with
      | ret ws₁ s₂ =>
        rw [bind_ret hrest] at hbefore
        obtain ⟨-, rfl⟩ := Outcome.ret.inj hbefore
        exact bind_undefined (ih ws₁ hrest) _
      | throw e s₂ =>
        rw [bind_throw hrest] at hbefore
        cases hbefore
      | undefined =>
        rw [bind_undefined hrest] at hbefore
        cases hbefore
    | throw e s₁ =>
      rw [bind_throw hcall] at hbefore
      cases hbefore
    | undefined =>
      rw [bind_undefined hcall] at hbefore
      cases hbefore

/-- What is handed over comes from the calls. -/
theorem useWriter_stores (cs : List WriterCall) (s : State DB) :
    wp True (useWriter W b cs) (fun ws _ => ∀ data ∈ Written.storedOf ws, ∃ c ∈ cs, c.data = data) (fun _ _ => True)
      s := by
  induction cs generalizing s with
  | nil =>
    rw [useWriter, wp_pure]
    exact fun data hdata => absurd hdata List.not_mem_nil
  | cons c cs ih =>
    have hcall (s : State DB) : wp True (Exec.catchAll (c.perform W b) (fun _ => return .failed))
        (fun w _ => ∀ data, w.data = some data → c.data = data) (fun _ _ => True) s := by
      have hfailed (s : State DB) : wp True (return Written.failed : Prog DB Written)
          (fun w _ => ∀ data, w.data = some data → c.data = data) (fun _ _ => True) s := fun _ h => nomatch h
      rw [wp_catchAll]
      cases c with
      | insert t ts => exact (wp_bind _ _).2 (wp_trivial (fun _ _ data h => Option.some.inj h) fun _ => hfailed)
      | insertRaw data => exact (wp_bind _ _).2 (wp_trivial (fun _ _ data h => Option.some.inj h) fun _ => hfailed)
      | commit => exact (wp_bind _ _).2 (wp_trivial (fun _ _ _ h => nomatch h) fun _ => hfailed)
    rw [useWriter, wp_bind]
    refine wp_mono (hcall s) (fun w s₁ hw => ?_) fun _ _ => id
    rw [wp_bind]
    refine wp_mono (ih s₁) (fun ws s₂ hws => ?_) fun _ _ => id
    rw [wp_pure]
    intro data hdata
    obtain ⟨w', hw', hstored⟩ := List.mem_filterMap.1 hdata
    rcases List.mem_cons.1 hw' with rfl | hw'
    · exact ⟨c, List.mem_cons_self, hw data hstored⟩
    · obtain ⟨c', hc', hc'data⟩ := hws data (List.mem_filterMap.2 ⟨w', hw', hstored⟩)
      exact ⟨c', List.mem_cons_of_mem c hc', hc'data⟩

/-- When the writer is destroyed, a COPY that is still in progress is aborted. -/
theorem wp_destroyBulk_writing (hW : W.Reliable) (h : Writing load rows σ b o g ws s) :
    wp False (destroyBulk W b) (fun _ s' =>
      (Written.Committed ws → load (Written.passedOf ws) σ.content = some s'.conn.pg.session.content) ∧
      (¬ Written.Committed ws → s'.conn.pg.session = σ.fail) ∧ s'.conn.Accepts W ∧ s'.current = some o)
      (fun _ _ => False) s := by
  have aborted (hw : s.Writes b o g) (hn : ¬ Written.Committed ws)
      (hread : wp False (Connection.fetchResult W) (fun _ _ => False) (fun _ c' => c'.Shows σ.fail []) s.conn) :
      wp False (destroyBulk W b) (fun _ s' =>
        (Written.Committed ws → load (Written.passedOf ws) σ.content = some s'.conn.pg.session.content) ∧
        (¬ Written.Committed ws → s'.conn.pg.session = σ.fail) ∧ s'.conn.Accepts W ∧ s'.current = some o)
        (fun _ _ => False) s := by
    simp only [destroyBulk, wp_bind, wp_derefBulk, hw.bulk, Option.some.injEq, forall_eq', wp_catchAll, getResult,
      reduceCtorEq, false_implies, and_true]
    rw [wp_check_current hw.guard rfl hw.current]
    simp only [wp_onConnection, wp_pure]
    refine wp_mono hread (fun _ _ => False.elim) fun _ c hc => ?_
    refine wp_mono (wp_destroyMembers_writes (hw.conn c)) (fun _ s' h' => ?_) fun _ _ => id
    obtain ⟨hconn, hcurrent⟩ := h'
    rw [hconn]
    exact ⟨fun hn' => absurd hn' hn, fun _ => hc.session, hc.accepts, hcurrent⟩
  cases h with
  | loading hw hn hc => exact aborted hw hn (Connection.wp_fetchResult_loading hW hc)
  | refused hw hn hc => exact aborted hw hn (Connection.wp_fetchResult_idle hW hc)
  | loaded σ' hw hn _ hload hc =>
    simp only [destroyBulk, wp_bind, wp_derefBulk, hw.bulk, Option.some.injEq, forall_eq', reduceCtorEq, false_implies,
      and_true]
    refine wp_mono (wp_destroyMembers_letGo hw) (fun _ s' h' => ?_) fun _ _ => id
    obtain ⟨hconn, hcurrent⟩ := h'
    rw [hconn, hc.session]
    exact ⟨fun _ => hload, fun hn' => absurd hn hn', hc.accepts, hcurrent⟩

end Step

/-! ### The constructor -/

/-- `connection::get_result` announces a COPY FROM only if one is in progress, and it still is afterwards. -/
private theorem Connection.wp_getResult_began {c : Connection DB} (hp : c.pg.Proper) :
    wp True (getResult W) (fun r c' => statusOf r = .copyIn → c.pg.isOpen = true ∧
      (∃ load rows received rest, c.pg.stream = .copyIn load rows received :: rest) ∧ c.ReadsTo c.pg.stream c')
      (fun _ _ => True) c := by
  simp only [getResult, wp_bind, wp_libpq, wp_pure]
  refine wp_mono (wp_weaken (wp_waitWhen_reads _ c)) (fun _ c₁ h₁ => ?_) (fun _ _ _ => trivial)
  obtain ⟨n, calls, rfl⟩ := h₁
  refine wp_mono (wp_weaken (wp_handleNotifications_reads _)) (fun _ c₂ h₂ hr => ?_) (fun _ _ _ => trivial)
  have hp' : ({ c.pg with clock := n } : PGconn DB).Proper := hp
  cases hread : ({ c.pg with clock := n } : PGconn DB).getResult.2 with
  | none =>
    rw [hread] at hr
    cases hr
  | some r =>
    rw [hread] at hr
    obtain ⟨hs, hsame, ho⟩ := hp'.copyIn_of_getResult hread hr
    refine ⟨ho, hs, ?_⟩
    have h₂ : ReadsTo { c with pg := ({ c.pg with clock := n } : PGconn DB).getResult.1, calls := _ }
        ({ c.pg with clock := n } : PGconn DB).getResult.1.stream c₂ := h₂
    rw [hsame] at h₂
    exact .trans ⟨n, _, rfl⟩ h₂

/-- `table_writer::check_result` returns only if the COPY has begun. -/
private theorem wp_writerCheckResult_began {s : State DB} {o g : Addr} {b : Nat} (hw : s.Writes b o g)
    (hproper : s.conn.pg.Proper) {E : Exn → State DB → Prop} (hE : ∀ e t, E e t) :
    wp True (writerCheckResult W b) (fun _ s' => ∃ c, s' = { s with conn := c } ∧ s.conn.pg.isOpen = true ∧
      (∃ load rows received rest, s.conn.pg.stream = .copyIn load rows received :: rest) ∧
      s.conn.ReadsTo s.conn.pg.stream c) E s := by
  simp only [writerCheckResult, wp_bind]
  refine (wp_guardOf_writes hw).2 ?_
  rw [wp_onConnection]
  refine wp_mono (Connection.wp_getResult_began hproper) (fun r c hr => ?_) (fun e _ _ => hE e _)
  have throws {x : Prog DB Unit} {e : Exn} {Q : Unit → State DB → Prop} {t : State DB} :
      wp True (do x; Exec.throw e) Q E t := by
    rw [wp_bind]
    exact wp_trivial (fun _ _ => hE _ _) hE
  have refused {x : Prog DB Unit} {r : Option PGresult} {Q : Unit → State DB → Prop} {t : State DB} :
      wp True (do x; onConnection (Connection.throwSqlstate r)) Q E t := by
    rw [wp_bind]
    refine wp_trivial (fun _ _ => ?_) hE
    cases r <;> exact hE _ _
  cases hstatus : Connection.statusOf r with
  | copyIn => exact ⟨c, rfl, hr hstatus⟩
  | copyOut =>
    simp only [wp_bind]
    refine wp_trivial (fun _ _ => wp_trivial (fun _ _ => wp_trivial (fun _ _ => ?_) hE) hE) hE
    exact wp_trivial (fun _ _ => hE _ _) hE
  | commandOk => exact throws
  | tuplesOk => exact throws
  | emptyQuery => exact throws
  | fatalError => exact refused
  | singleTuple => exact refused
  | tuplesChunk => exact refused
  | pipelineSync => exact refused
  | pipelineAborted => exact refused

/-- A table writer that was constructed on the current transaction has the connection, and its COPY has begun. -/
theorem loading_of_tableWriter {s₀ s : State DB} {o g : Addr} {b : Nat} {u : Statement DB} (hs₀ : Reachable W s₀)
    (hl : (Call.tableWriter o g b u).Legal s₀) (hcurrent : s₀.current = some o)
    (hctor : tableWriter W o g b u s₀ = .ret () s) :
    ∃ load rows, u.body = .copyFrom load rows ∧ s₀.conn.pg.session.failed = false ∧ s.Writes b o g ∧
      s.conn.Shows s₀.conn.pg.session [.copyIn load rows []] := by
  suffices h : wp True (tableWriter W o g b u) (fun _ s => ∃ load rows, u.body = .copyFrom load rows ∧
      s₀.conn.pg.session.failed = false ∧ s.Writes b o g ∧
      s.conn.Shows s₀.conn.pg.session [.copyIn load rows []]) (fun _ _ => True) s₀ from
    wp_ret h hctor
  have hproper := hs₀.proper
  obtain ⟨⟨hheld, -⟩, hfree, hb⟩ := hl
  have hunowned : ¬ s₀.Owns g := fun h => by simpa [show s₀.object g = none from hfree] using hs₀.owned.alive g h
  simp only [tableWriter, newBulk, newTransactionGuard, newSubtransactionBase, wp_bind, wp_get]
  refine wp_derefConnection o fun x hx hc => ?_
  have hne : o ≠ g := by
    rintro rfl
    rw [show s₀.object o = none from hfree] at hx
    cases hx
  simp only [hcurrent, wp_derefPointer_some, wp_putObject, wp_setCurrent, wp_putBulk, wp_catchAll, wp_bind, wp_throw,
    implies_true, and_true, Bool.false_eq_true, ↓reduceIte]
  intro _
  generalize hs₁ : ({ s₀ with
    objects := s₀.objects.insert g ⟨.transactionGuard o, true⟩
    current := some g
    bulks := s₀.bulks.insert b ⟨false, some o, some g, 0, none⟩ } : State DB) = s₁
  have hw : s₁.Writes b o g := by
    rw [← hs₁]
    refine ⟨(State.bulk_insert s₀ b _ b).trans (if_pos rfl), (State.object_insert s₀ g _ g).trans (if_pos rfl), rfl,
      hheld, fun h => hunowned (.inl h), fun x y hx hy => ?_, fun b' k hk hb' => ?_⟩
    · have hx := (State.object_insert s₀ g _ x).symm.trans hx
      split at hx
      · obtain rfl := Option.some.inj hx
        exact hne (Option.some.inj hy)
      · exact hunowned (.inr (.inl ⟨x, y, hx, hy⟩))
    · have hk := (State.bulk_insert s₀ b _ b').symm.trans hk
      rw [if_neg hb'] at hk
      exact ⟨fun h => hunowned (.inr (.inr ⟨b', k, hk, .inl h⟩)), fun h => hunowned (.inr (.inr ⟨b', k, hk, .inr h⟩))⟩
  have hconn : s₁.conn = s₀.conn := by rw [← hs₁]
  have fails {x : Prog DB Unit} {t : State DB} :
      wp True x (fun _ _ => True) (fun _ _ => True) t := wp_trivial (fun _ _ => trivial) fun _ _ => trivial
  clear hs₁
  simp only [send, wp_bind]
  rw [wp_check_current hw.guard rfl hw.current]
  simp only [wp_onConnection, Connection.sendParams, Connection.libpqOr, wp_bind, wp_get, wp_libpq, wp_ite, wp_pure,
    wp_throw]
  generalize s₁.conn.prepared.contains _ = byName
  generalize (if byName = true then LibpqCall.sendQueryPrepared else .sendQueryParams) = call
  refine ⟨fun hsent => ?_, fun _ => fails⟩
  rw [hconn] at hsent ⊢
  refine wp_mono (wp_writerCheckResult_began (hw.conn _) (hproper.send byName _) fun _ _ => fails) (fun _ s' h' => ?_)
    fun _ _ => id
  obtain ⟨c, rfl, ho, ⟨load, rows, received, rest, hstream⟩, n, calls, rfl⟩ := h'
  obtain ⟨hu, rfl, rfl, hf, hopen, hp, hpg⟩ := PGconn.send_copyFrom byName hsent hstream
  refine ⟨load, rows, hu, hf, ?_, ?_⟩
  · exact (hw.conn _).conn _
  · rw [hpg]
    exact ⟨hopen, rfl, rfl, hp⟩

theorem writing_of_tableWriter {s₀ s : State DB} {o g : Addr} {b : Nat} {u : Statement DB} (hs₀ : Reachable W s₀)
    (hl : (Call.tableWriter o g b u).Legal s₀) (hcurrent : s₀.current = some o)
    (hctor : tableWriter W o g b u s₀ = .ret () s) :
    ∃ load rows, u.body = .copyFrom load rows ∧ s₀.conn.pg.session.failed = false ∧
      Writing load rows s₀.conn.pg.session b o g [] s := by
  obtain ⟨load, rows, hu, hf, hw, hc⟩ := loading_of_tableWriter hs₀ hl hcurrent hctor
  exact ⟨load, rows, hu, hf, .loading hw (by simp [Written.Committed]) hc⟩

/-- What is promised of a table writer that was constructed in the state `s₀`, when these calls are made and it is
destroyed: its rows are loaded exactly when a `commit` returns, and they are those that were handed over, of which it
returns the number.  Otherwise the COPY is aborted.  In the end everything has been read, and the transaction is current
again. -/
def LoadsOnCommit (W : World) (b : Nat) (load : List Chunk → DB → Option DB) (rows : List Chunk → Nat)
    (s₀ s : State DB) (cs : List WriterCall) : Prop :=
  wp False
    (do
      let ws ← useWriter W b cs
      destroyBulk W b
      return ws)
    (fun ws s' =>
      (Written.Committed ws →
        load (Written.storedOf ws) s₀.conn.pg.session.content = some s'.conn.pg.session.content) ∧
      (∀ n, .committed n ∈ ws → n = rows (Written.storedOf ws)) ∧
      (¬ Written.Committed ws → s'.conn.pg.session = s₀.conn.pg.session.fail) ∧
      s'.conn.Accepts W ∧ s'.current = s₀.current)
    (fun _ _ => False) s

/-- A table writer on the current transaction keeps its promise for lines whose sizes fit an `int`, exactly when no call
follows a `commit` that returned. -/
theorem bulk_load (hW : W.Reliable) {s₀ s : State DB} {o g : Addr} {b : Nat} {u : Statement DB} (hs₀ : Reachable W s₀)
    (hl : (Call.tableWriter o g b u).Legal s₀) (hcurrent : s₀.current = some o)
    (hctor : tableWriter W o g b u s₀ = .ret () s) {cs : List WriterCall}
    (hshort : ∀ c ∈ cs, c.data.length < 2 ^ 31) :
    ∃ load rows, u.body = .copyFrom load rows ∧
      (LoadsOnCommit W b load rows s₀ s cs ↔ ¬ CallsReleased W b [] cs s) := by
  obtain ⟨load, rows, hu, hf, hwriting⟩ := writing_of_tableWriter hs₀ hl hcurrent hctor
  refine ⟨load, rows, hu, fun h hreleased => ?_, fun hreleased => ?_⟩
  · unfold LoadsOnCommit wp at h
    rwa [bind_undefined (useWriter_released hW hf hwriting hreleased)] at h
  · have hused : wp False (useWriter W b cs)
        (fun ws s' => Writing load rows s₀.conn.pg.session b o g ([] ++ ws) s') (fun _ _ => False) s :=
      Outcome.Sat.mono (useWriter_writing hW hf hwriting cs) hreleased (fun _ _ => id) fun _ _ => id
    have hdefined : Defined (useWriter W b cs) s := wp_mono hused (fun _ _ _ => trivial) fun _ _ => False.elim
    have hstored := wp_and hused (wp_of_defined hdefined (useWriter_stores cs s))
    rw [LoadsOnCommit, wp_bind]
    refine wp_mono hstored (fun ws s₁ h₁ => ?_) fun _ _ => And.left
    obtain ⟨h₁, hstores⟩ := h₁
    rw [List.nil_append] at h₁
    have hwhole : Written.passedOf ws = Written.storedOf ws := by
      refine Written.passedOf_eq ws fun data hdata => ?_
      obtain ⟨c, hc, rfl⟩ := hstores data hdata
      exact hshort c hc
    have hrows : ∀ n, .committed n ∈ ws → n = rows (Written.storedOf ws) := by
      intro n hn
      rw [← hwhole]
      cases h₁ with
      | loading _ hn' => exact absurd ⟨n, hn⟩ hn'
      | refused _ hn' => exact absurd ⟨n, hn⟩ hn'
      | loaded _ _ _ hrows => exact hrows n hn
    rw [wp_bind]
    refine wp_mono (wp_destroyBulk_writing hW h₁) (fun _ s₂ h₂ => ?_) fun _ _ => id
    rw [wp_pure, hcurrent, ← hwhole]
    exact ⟨h₂.1, hwhole ▸ hrows, h₂.2⟩

/-- Rows are inserted into an empty table. -/
theorem bulk_load_rows : ∃ s : State (List Chunk),
    tableWriter .calm 0 1 0 ⟨"COPY t FROM STDIN", .copyFrom (fun rows db => some (db ++ rows)) List.length⟩
      (State.directOnly [] 0) = .ret () s ∧
    (LoadsOnCommit .calm 0 (fun rows db => some (db ++ rows)) List.length (State.directOnly [] 0) s
        [.insertRaw [97, 10], .insertRaw [98, 10], .commit] ↔
      ¬ CallsReleased .calm 0 [] [.insertRaw [97, 10], .insertRaw [98, 10], .commit] s) := by
  have hs₀ : Reachable .calm (State.directOnly ([] : List Chunk) 0) := .directOnly [] 0 trivial
  obtain ⟨s, hctor⟩ : ∃ s, tableWriter .calm 0 1 0
      ⟨"COPY t FROM STDIN", .copyFrom (fun rows db => some (db ++ rows)) List.length⟩
      (State.directOnly ([] : List Chunk) 0) = .ret () s := ⟨_, rfl⟩
  refine ⟨s, hctor, ?_⟩
  have hshort : ∀ c ∈ ([.insertRaw [97, 10], .insertRaw [98, 10], .commit] : List WriterCall),
      c.data.length < 2 ^ 31 := by decide
  obtain ⟨load, rows, hu, h⟩ := bulk_load World.calm_reliable hs₀ (by decide) rfl hctor hshort
  obtain ⟨rfl, rfl⟩ := Body.copyFrom.inj hu
  exact h

/-- One line is inserted and committed, and the server loads what libpq has taken of it. -/
private theorem wp_useWriter_line {s : State DB} {o g : Addr} {b : Nat} {σ : Session DB}
    {load : List Chunk → DB → Option DB} {rows : List Chunk → Nat} (hW : W.Reliable) (hw : s.Writes b o g)
    (hc : s.conn.Shows σ [.copyIn load rows []]) (hf : σ.failed = false) (data : Chunk) {db : DB}
    (hload : load [passed data] σ.content = some db) :
    wp False
      (do
        let ws ← useWriter W b [.insertRaw data, .commit]
        destroyBulk W b
        return ws)
      (fun ws s' => ws = [.stored data, .committed (rows [passed data])] ∧ s'.conn.pg.session.content = db)
      (fun _ _ => False) s := by
  simp only [useWriter, WriterCall.perform, WriterCall.data, wp_bind, wp_catchAll, wp_pure, insertRaw,
    wp_guardOf_writes hw, wp_onConnection]
  refine wp_mono (Connection.wp_putCopyData_loading hW hc data) (fun _ c hc' => ?_) fun _ _ => id
  refine wp_mono (wp_writerCommit_loads hW (hw.conn c) hc' hf hload) (fun n s' h' => ?_) fun _ _ => id
  obtain ⟨rfl, hgo, σ', rfl, hc''⟩ := h'
  simp only [destroyBulk, wp_bind, wp_derefBulk, hgo.bulk, Option.some.injEq, forall_eq', reduceCtorEq, false_implies,
    and_true]
  refine wp_mono (wp_destroyMembers_letGo hgo) (fun _ s'' h'' => ?_) fun _ _ => id
  obtain ⟨hconn, -⟩ := h''
  rw [hconn, hc''.session]
  exact ⟨rfl, rfl⟩

/-- A second `commit` follows a null pointer, and a line of `2^31` bytes is loaded as an empty one. -/
theorem bulk_load_fails : ∃ s : State (List Chunk),
    Reachable .calm (State.directOnly ([] : List Chunk) 0) ∧
    tableWriter .calm 0 1 0 ⟨"COPY t FROM STDIN", .copyFrom (fun rows db => some (db ++ rows)) List.length⟩
      (State.directOnly [] 0) = .ret () s ∧
    ¬ LoadsOnCommit .calm 0 (fun rows db => some (db ++ rows)) List.length (State.directOnly [] 0) s
        [.commit, .commit] ∧
    ¬ LoadsOnCommit .calm 0 (fun rows db => some (db ++ rows)) List.length (State.directOnly [] 0) s
        [.insertRaw (List.replicate (2 ^ 31) 120), .commit] := by
  have hs₀ : Reachable .calm (State.directOnly ([] : List Chunk) 0) := .directOnly [] 0 trivial
  obtain ⟨s, hctor⟩ : ∃ s, tableWriter .calm 0 1 0
      ⟨"COPY t FROM STDIN", .copyFrom (fun rows db => some (db ++ rows)) List.length⟩
      (State.directOnly ([] : List Chunk) 0) = .ret () s := ⟨_, rfl⟩
  obtain ⟨load, rows, hu, hf, hw, hc⟩ := loading_of_tableWriter hs₀ (by decide) rfl hctor
  obtain ⟨rfl, rfl⟩ := Body.copyFrom.inj hu
  refine ⟨s, hs₀, hctor, fun h => ?_, fun h => ?_⟩
  · have hwriting : Writing _ _ _ 0 0 1 [] s := .loading hw (by simp [Written.Committed]) hc
    have hcommit : wp False (useWriter .calm 0 [.commit]) (fun ws _ => Written.Committed ([] ++ ws))
        (fun _ _ => False) s := by
      simp only [useWriter, WriterCall.perform, wp_bind, wp_catchAll, wp_pure]
      refine wp_mono (wp_writerCommit_loads World.calm_reliable hw hc hf rfl) (fun n _ _ => ?_) fun _ _ => id
      exact ⟨n, List.mem_cons_self⟩
    obtain ⟨ws, s', hs', hcommitted⟩ := exists_ret hcommit
    have htwice : CallsReleased .calm 0 [] [.commit, .commit] s :=
      ⟨[.commit], .commit, [], ws, s', rfl, hs', hcommitted⟩
    have hreleased := useWriter_released World.calm_reliable hf hwriting htwice
    unfold LoadsOnCommit wp at h
    rwa [bind_undefined hreleased] at h
  · generalize hdata : List.replicate (2 ^ 31) (120 : UInt8) = data at h
    obtain ⟨ws, s', hs', rfl, hcontent⟩ :=
      exists_ret (wp_useWriter_line World.calm_reliable hw hc hf data rfl)
    have hloaded := (wp_ret h hs').1 ⟨_, List.mem_cons_of_mem _ List.mem_cons_self⟩
    rw [hcontent] at hloaded
    have hwhole : data = passed data := List.singleton_inj.1 (Option.some.inj hloaded)
    have hlength := (passed_eq_self_iff data).1 hwhole.symm
    rw [← hdata, List.length_replicate] at hlength
    exact absurd hlength (lt_irrefl _)

end TaoPQ
