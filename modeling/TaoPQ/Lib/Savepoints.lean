/-!
# Named savepoints

A stack of snapshots, most recent first, addressed by names that need not be unique: a name stands for its most
recent entry (`since`).  Scopes that are nested like blocks, each named differently from the scopes around it, can
be laid over such a stack even if ended scopes left entries behind.  `Covers frames saves` says that the open scopes
`frames`, innermost first, find their own snapshots in `saves`: what lies above the entry of a scope bears neither
its name nor that of a scope around it.  Opening a scope and ending the innermost one in either way keep this.
-/

namespace Savepoints

variable {ν γ : Type}

/-- The snapshot of the most recent entry named `n`, with the entries older than it. -/
def since [DecidableEq ν] (n : ν) : List (ν × γ) → Option (γ × List (ν × γ))
  | [] => none
  | (m, x) :: rest => if m = n then some (x, rest) else since n rest

/-- The names of a list of scopes. -/
abbrev names (frames : List (ν × γ)) : List ν := frames.map Prod.fst

/-- Every open scope of `frames` is the most recent entry of its name, once the scopes inside it are gone. -/
def Covers : List (ν × γ) → List (ν × γ) → Prop
  | [], _ => True
  | (n, x) :: frames, saves => ∃ stale rest, saves = stale ++ (n, x) :: rest ∧
      (∀ p ∈ stale, p.1 ∉ n :: names frames) ∧ Covers frames rest

private theorem since_append [DecidableEq ν] {n : ν} {stale : List (ν × γ)} (x : γ) (rest : List (ν × γ))
    (h : ∀ p ∈ stale, p.1 ≠ n) : since n (stale ++ (n, x) :: rest) = some (x, rest) := by
  induction stale with
  | nil => simp [since]
  | cons p stale ih =>
    obtain ⟨m, y⟩ := p
    have hm : m ≠ n := h (m, y) (by simp)
    simp only [List.cons_append, since, hm, ↓reduceIte]
    exact ih (fun q hq => h q (by simp [hq]))

/-- An entry left behind does not hide the open scopes, if it is named differently. -/
theorem Covers.stale {frames saves : List (ν × γ)} (h : Covers frames saves) {n : ν} (x : γ)
    (hn : n ∉ names frames) : Covers frames ((n, x) :: saves) := by
  cases frames with
  | nil => exact trivial
  | cons f frames =>
    obtain ⟨m, y⟩ := f
    obtain ⟨stale, rest, rfl, hst, hc⟩ := h
    refine ⟨(n, x) :: stale, rest, rfl, ?_, hc⟩
    intro p hp
    rcases List.mem_cons.1 hp with rfl | hp
    · exact hn
    · exact hst p hp

/-- Opening a scope. -/
theorem Covers.push {frames saves : List (ν × γ)} (h : Covers frames saves) (n : ν) (x : γ) :
    Covers ((n, x) :: frames) ((n, x) :: saves) :=
  ⟨[], saves, rfl, by simp, h⟩

/-- The innermost scope finds its own snapshot, and the older entries cover the scopes around it. -/
theorem Covers.since [DecidableEq ν] {frames saves : List (ν × γ)} {n : ν} {x : γ}
    (h : Covers ((n, x) :: frames) saves) :
    ∃ rest, Savepoints.since n saves = some (x, rest) ∧ Covers frames rest := by
  obtain ⟨stale, rest, rfl, hst, hc⟩ := h
  refine ⟨rest, since_append x rest ?_, hc⟩
  intro p hp he
  exact hst p hp (by simp [he])

end Savepoints
