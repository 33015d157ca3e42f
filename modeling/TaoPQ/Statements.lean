import TaoPQ.Answers

/-!
# A statement and its answer

What `execute` does with a statement of the user: the statement is executed by the server as its body says, except
that a COPY is not gone on with.  A COPY FROM is ended with an error, and a COPY TO is cancelled, which fails it
unless the request comes too late.
-/

namespace TaoPQ

open Exec

variable {DB : Type}

/-- What a statement does to the content when it is run by `execute`; `late` says that a cancel request has no effect. -/
def Body.effect (late : Bool) : Body DB → DB → Option DB
  | .empty => some
  | .command effect _ => effect
  | .query effect _ _ => effect
  | .copyFrom _ _ => fun _ => none
  | .copyTo _ _ completes => if completes && late then some else fun _ => none

namespace Session

variable {σ : Session DB}

/-- The session after a statement of the user. -/
def after (σ : Session DB) (effect : DB → Option DB) : Session DB := (σ.run effect .fatal).1

/-- A statement that fails. -/
theorem fail_eq : σ.fail = σ.after fun _ => none := by
  obtain ⟨db, block, prepared⟩ := σ
  cases block with
  | none => rfl
  | some b =>
    obtain ⟨content, failed, saves⟩ := b
    cases failed <;> rfl

theorem after_of_failed (hf : σ.failed = true) (effect : DB → Option DB) : σ.after effect = σ := by
  obtain ⟨b, hb, hf⟩ := (Option.any_eq_true _ _).1 hf
  simp [after, run, hb, hf]

end Session

namespace Connection

variable {W : World} {c : Connection DB} {σ : Session DB} {rest : List (Item DB)} {ub : Prop}

/-- The effect of a statement that is run on this connection. -/
def effect (W : World) (c : Connection DB) (u : Statement DB) : DB → Option DB :=
  if c.prepared.contains u.text && !c.pg.session.prepared.contains u.text then fun _ => none
  else u.body.effect (W.cancelIgnored (c.pg.clock + 2))

end Connection

end TaoPQ
