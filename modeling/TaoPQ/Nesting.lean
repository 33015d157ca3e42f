import TaoPQ.Server
import TaoPQ.Lib.Nested

/-!
# Nested transactions on the server

How a session of the server represents nested transactions (`Session.Represents`): the outermost transaction is the
block, and each one inside it is a savepoint that is named after the transaction.  Savepoints that were rolled back
are left behind on the server, and may bear the name of a transaction that comes later; `Savepoints.Covers` says that
they do not get in the way.  Each command of taoPQ then does to the session what it means for the transactions.
-/

namespace TaoPQ

variable {DB : Type}

namespace Session

/-- The session represents nested transactions: outside a block there are none, and inside a block the savepoints of
all but the outermost one are found under their names. -/
inductive Represents (σ : Session DB) (n : Nested Addr DB) : Prop where
  | outside : n.frames = [] → n.failed = false → σ.block = none → σ.committed = n.content → Represents σ n
  | inside (b : Block DB) (inner : List (Addr × DB)) (a : Addr) : n.frames = inner ++ [(a, σ.committed)] →
      σ.block = some b → b.content = n.content → b.failed = n.failed → Savepoints.Covers inner b.saves → Represents σ n

variable {σ : Session DB} {n : Nested Addr DB} {a : Addr} {x : DB}

namespace Represents

theorem init (db : DB) : (⟨db, none, []⟩ : Session DB).Represents (.init db) := .outside rfl rfl rfl rfl

theorem content (h : σ.Represents n) : σ.content = n.content := by
  cases h with
  | outside _ _ hb hc => simp [Session.content, hb, hc]
  | inside b inner a _ hb hc _ _ => simp [Session.content, hb, hc]

theorem failed (h : σ.Represents n) : σ.failed = n.failed := by
  cases h with
  | outside _ hf hb _ => simp [Session.failed, hb, hf]
  | inside b inner a _ hb _ hf _ => simp [Session.failed, hb, hf]

theorem committed (h : σ.Represents n) : σ.committed = n.committed := by
  cases h with
  | outside hn _ _ hc => simp [Nested.committed, hn, hc]
  | inside b inner a hn _ _ _ _ => simp [Nested.committed, hn]

/-- A statement of the user. -/
theorem run (h : σ.Represents n) (effect : DB → Option DB) (ok : PGresult) :
    (σ.run effect ok).1.Represents (n.run effect) := by
  cases h with
  | outside hn hf hb hc =>
    rcases he : effect n.content with _ | db
    · have hr : n.run effect = { n with failed := false } := by simp [Nested.run, hf, he, hn]
      rw [hr]
      exact .outside hn rfl (by simp [Session.run, hb, hc, he]) (by simp [Session.run, hb, hc, he])
    · have hr : n.run effect = { n with content := db } := by simp [Nested.run, hf, he]
      rw [hr]
      exact .outside hn hf (by simp [Session.run, hb, hc, he]) (by simp [Session.run, hb, hc, he])
  | inside b inner a hn hb hc hf hcov =>
    cases hbf : b.failed with
    | true =>
      have hr : n.run effect = n := by simp [Nested.run, ← hf, hbf]
      have hσ : (σ.run effect ok).1 = σ := by simp [Session.run, hb, hbf]
      rw [hr, hσ]
      exact .inside b inner a hn hb hc hf hcov
    | false =>
      rcases he : effect n.content with _ | db
      · have hr : n.run effect = { n with failed := true } := by simp [Nested.run, ← hf, hbf, he, hn]
        have hσ : (σ.run effect ok).1 = σ.fail := by simp [Session.run, hb, hbf, hc, he]
        rw [hr, hσ]
        exact .inside { b with failed := true } inner a hn (by simp [fail, hb]) hc rfl hcov
      · have hr : n.run effect = { n with content := db } := by simp [Nested.run, ← hf, hbf, he]
        have hσ : (σ.run effect ok).1 = { σ with block := some { b with content := db } } := by
          simp [Session.run, hb, hbf, hc, he]
        rw [hr, hσ]
        exact .inside { b with content := db } inner a hn rfl rfl hf hcov

/-- `START TRANSACTION` opens the outermost transaction. -/
theorem startTransaction (h : σ.Represents n) (hn : n.frames = []) (a : Addr) (refused : Bool) (il : IsolationLevel)
    (am : AccessMode) : (σ.control refused (.startTransaction il am)).1.Represents (n.begin a) ∧
      (σ.control refused (.startTransaction il am)).2 = .plain .commandOk .start ∧ n.failed = false := by
  cases h with
  | outside _ hf hb hc =>
    rw [Nested.begin_of_not_failed hf, hn]
    refine ⟨.inside ⟨σ.committed, false, []⟩ [] a ?_ ?_ hc hf.symm trivial, ?_, hf⟩
    · simp [control, hb, hc]
    · simp [control, hb]
    · simp [control, hb]
  | inside b inner a hn' _ _ _ _ => simp [hn] at hn'

/-- `SAVEPOINT` opens one inside it, unless a statement has failed. -/
theorem savepoint (h : σ.Represents n) (hn : n.frames ≠ []) (a : Addr) (refused : Bool) :
    (σ.control refused (.savepoint a)).1.Represents (n.begin a) ∧
      (σ.control refused (.savepoint a)).2 = if n.failed then .fatal else .plain .commandOk .savepoint := by
  cases h with
  | outside hn' _ _ _ => exact absurd hn' hn
  | inside b inner a₀ hn hb hc hf hcov =>
    cases hbf : b.failed with
    | true =>
      have hσ : σ.control refused (.savepoint a) = (σ, .fatal) := by simp [control, hb, hbf]
      rw [Nested.begin_of_failed (hf ▸ hbf), hσ, ← hf, hbf]
      exact ⟨.inside b inner a₀ hn hb hc hf hcov, rfl⟩
    | false =>
      have hσ : σ.control refused (.savepoint a) =
          ({ σ with block := some { b with saves := (a, b.content) :: b.saves } }, .plain .commandOk .savepoint) := by
        simp [control, hb, hbf]
      rw [Nested.begin_of_not_failed (hf ▸ hbf), hσ, ← hf, hbf]
      exact ⟨.inside _ ((a, b.content) :: inner) a₀ (by simp [hn, hc]) rfl hc rfl (hcov.push a b.content), rfl⟩

/-- The innermost of several transactions has a savepoint. -/
private theorem covers_of_frames {inner : List (Addr × DB)} {a₀ : Addr} {db : DB} {f : Addr × DB}
    {rest : List (Addr × DB)} (hn : inner ++ [(a₀, db)] = (a, x) :: f :: rest) :
    ∃ inner', inner = (a, x) :: inner' ∧ f :: rest = inner' ++ [(a₀, db)] := by
  cases inner with
  | nil => simp at hn
  | cons g inner' =>
    obtain ⟨rfl, hn'⟩ := List.cons.inj hn
    exact ⟨inner', rfl, hn'.symm⟩

/-- `RELEASE SAVEPOINT` commits the innermost transaction, -/
theorem releaseSavepoint (h : σ.Represents n) {f : Addr × DB} {rest : List (Addr × DB)}
    (hn : n.frames = (a, x) :: f :: rest) (hf : n.failed = false) (refused : Bool) :
    (σ.control refused (.releaseSavepoint a)).1.Represents (n.commit refused) ∧
      (σ.control refused (.releaseSavepoint a)).2 = .plain .commandOk .release := by
  cases h with
  | outside hn' _ _ _ => simp [hn] at hn'
  | inside b inner a₀ hn' hb hc hbf hcov =>
    obtain ⟨inner', rfl, hrest⟩ := covers_of_frames (hn'.symm.trans hn)
    obtain ⟨saves, hsince, hcov'⟩ := hcov.since
    have hbf' : b.failed = false := hbf.trans hf
    have hcommit : n.commit refused = { n with frames := f :: rest } := by simp [Nested.commit, hn]
    rw [hcommit]
    simp only [control, hb, hbf', Bool.false_eq_true, ↓reduceIte, hsince, and_true]
    exact .inside _ inner' a₀ hrest rfl hc hf.symm hcov'

/-- and `ROLLBACK TO` rolls it back, and leaves its savepoint behind. -/
theorem rollbackTo (h : σ.Represents n) {f : Addr × DB} {rest : List (Addr × DB)}
    (hn : n.frames = (a, x) :: f :: rest) (hd : (Savepoints.names n.frames).Nodup) (refused : Bool) :
    (σ.control refused (.rollbackTo a)).1.Represents n.rollback ∧
      (σ.control refused (.rollbackTo a)).2 = .plain .commandOk .rollback := by
  cases h with
  | outside hn' _ _ _ => simp [hn] at hn'
  | inside b inner a₀ hn' hb hc hbf hcov =>
    obtain ⟨inner', rfl, hrest⟩ := covers_of_frames (hn'.symm.trans hn)
    obtain ⟨saves, hsince, hcov'⟩ := hcov.since
    have hrollback : n.rollback = ⟨x, false, f :: rest⟩ := by simp [Nested.rollback, hn]
    have ha : a ∉ Savepoints.names inner' := by
      intro ha
      rw [hn, hrest] at hd
      simp only [Savepoints.names, List.map_cons, List.map_append, List.nodup_cons, List.mem_append] at hd
      exact hd.1 (.inl ha)
    rw [hrollback]
    simp only [control, hb, hsince, and_true]
    exact .inside ⟨x, false, (a, x) :: saves⟩ inner' a₀ hrest rfl rfl rfl (hcov'.stale x ha)

/-- `COMMIT` commits the outermost transaction, or is refused, -/
theorem commitTransaction (h : σ.Represents n) (hn : n.frames = [(a, x)]) (hf : n.failed = false) (refused : Bool) :
    (σ.control refused .commitTransaction).1.Represents (n.commit refused) := by
  cases h with
  | outside hn' _ _ _ => simp [hn] at hn'
  | inside b inner a₀ hn' hb hc hbf hcov =>
    have hx : x = σ.committed := by
      cases inner with
      | nil => simp_all
      | cons g inner' => simp [hn] at hn'
    have hbf' : b.failed = false := hbf.trans hf
    cases refused with
    | true =>
      have hcommit : n.commit true = ⟨x, false, []⟩ := by simp [Nested.commit, Nested.rollback, hn]
      rw [hcommit]
      exact .outside rfl rfl (by simp [control, hb, hbf']) (by simp [control, hb, hbf', hx])
    | false =>
      have hcommit : n.commit false = { n with frames := [] } := by simp [Nested.commit, hn]
      rw [hcommit]
      exact .outside rfl hf (by simp [control, hb, hbf']) (by simp [control, hb, hbf', hc])

/-- and `ROLLBACK` rolls it back. -/
theorem rollbackTransaction (h : σ.Represents n) (hn : n.frames = [(a, x)]) (refused : Bool) :
    (σ.control refused .rollbackTransaction).1.Represents n.rollback := by
  cases h with
  | outside hn' _ _ _ => simp [hn] at hn'
  | inside b inner a₀ hn' hb hc hbf hcov =>
    have hx : x = σ.committed := by
      cases inner with
      | nil => simp_all
      | cons g inner' => simp [hn] at hn'
    have hrollback : n.rollback = ⟨x, false, []⟩ := by simp [Nested.rollback, hn]
    rw [hrollback]
    exact .outside rfl rfl rfl hx.symm

end Represents

end Session

end TaoPQ
