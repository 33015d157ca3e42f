/-!
# Runs of a transition function

The states that steps lead to from an initial state, where `ok` says which steps are made, and what is reached whatever
steps are made (`Inevitable`).
-/

/-- The states reached by a transition function, which may refuse a step. -/
inductive Run {σ α : Type} (init : σ) (step : σ → α → Option σ) (ok : σ → α → Prop) : σ → Prop where
  | init : Run init step ok init
  | step {s s' : σ} {a : α} : Run init step ok s → ok s a → step s a = some s' → Run init step ok s'

namespace Run

variable {σ α : Type} {init : σ} {step : σ → α → Option σ} {ok ok' : σ → α → Prop} {s s' : σ}

/-- What holds at first and is kept by every step holds in every state that is reached. -/
theorem invariant {I : σ → Prop} (hinit : I init) (hstep : ∀ s a s', I s → ok s a → step s a = some s' → I s')
    (h : Run init step ok s) : I s := by
  induction h with
  | init => exact hinit
  | step _ hok hs ih => exact hstep _ _ _ ih hok hs

theorem mono (hok : ∀ s a, ok s a → ok' s a) (h : Run init step ok s) : Run init step ok' s := by
  induction h with
  | init => exact .init
  | step _ h hs ih => exact .step ih (hok _ _ h) hs

/-- What holds in every state that is reached can be used to show that other conditions are met as well. -/
theorem mono_of_invariant {I : σ → Prop} (hinit : I init)
    (hstep : ∀ s a s', I s → ok s a → step s a = some s' → I s' ∧ ok' s a) (h : Run init step ok s) :
    Run init step ok' s := by
  suffices hboth : Run init step ok' s ∧ I s from hboth.1
  induction h with
  | init => exact ⟨.init, hinit⟩
  | step _ hok hs ih =>
    obtain ⟨hrun, hI⟩ := ih
    obtain ⟨hI', hok'⟩ := hstep _ _ _ hI hok hs
    exact ⟨.step hrun hok' hs, hI'⟩

/-- The state to which a list of steps leads, if `ok` accepts them. -/
def trace (step : σ → α → Option σ) (ok : σ → α → Prop) [∀ s a, Decidable (ok s a)] : List α → σ → Option σ
  | [], s => some s
  | a :: as, s => if ok s a then (step s a).bind (trace step ok as) else none

theorem of_trace_eq [∀ s a, Decidable (ok s a)] {as : List α} (h : Run init step ok s)
    (hs : trace step ok as s = some s') : Run init step ok s' := by
  induction as generalizing s with
  | nil => exact Option.some.inj hs ▸ h
  | cons a as ih =>
    simp only [trace] at hs
    split at hs
    · rename_i ha
      obtain ⟨s₁, h₁, hs⟩ := Option.bind_eq_some_iff.1 hs
      exact ih (.step h ha h₁) hs
    · cases hs

/-- A state with a property is reached if a list of steps leads to one. -/
theorem of_trace (init : σ) (step : σ → α → Option σ) (ok : σ → α → Prop) [∀ s a, Decidable (ok s a)] (as : List α)
    {P : σ → Prop} [DecidablePred P] (h : (trace step ok as init).any (fun s => decide (P s)) = true) :
    ∃ s, Run init step ok s ∧ P s := by
  obtain ⟨s, hs, hp⟩ := (Option.any_eq_true _ _).1 h
  exact ⟨s, Run.init.of_trace_eq hs, of_decide_eq_true hp⟩

end Run

/-- Whatever steps are made, a state with the property `P` is reached: in all other states there is a step, and no run
goes on without end. -/
inductive Inevitable {σ α : Type} (step : σ → α → Option σ) (P : σ → Prop) : σ → Prop where
  | here {s : σ} : P s → Inevitable step P s
  | later {s : σ} : (∃ a s', step s a = some s') → (∀ a s', step s a = some s' → Inevitable step P s') →
      Inevitable step P s

/-- A property is inevitable if, under an invariant, there is always a step, and every step makes a measure smaller. -/
theorem Inevitable.of_measure {σ α : Type} {step : σ → α → Option σ} {I P : σ → Prop} (μ : σ → Nat)
    (hstep : ∀ s a s', I s → step s a = some s' → I s' ∧ μ s' < μ s)
    (hprogress : ∀ s, I s → P s ∨ ∃ a s', step s a = some s') {s : σ} (hs : I s) : Inevitable step P s := by
  induction hn : μ s using Nat.strongRecOn generalizing s with
  | ind n ih =>
    rcases hprogress s hs with hP | hmore
    · exact .here hP
    · refine .later hmore fun a s' hs' => ?_
      obtain ⟨hI, hlt⟩ := hstep s a s' hs hs'
      exact ih (μ s') (hn ▸ hlt) hI rfl
