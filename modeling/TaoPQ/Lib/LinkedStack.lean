import Mathlib.Logic.Function.Basic

/-!
# A stack threaded through a heap

A stack that is given by a pointer to its top, and by the pointer of each cell to the one below it.  The heap is a
function `next`: `next a = some q` says that `a` is a cell and `q` its pointer.  `Spans next p` says that the pointer
`p` is the top of a stack that consists of all the cells of the heap.  Pushing a new cell and popping the top one
keep this, and a cell to which no cell points is the top.
-/

namespace LinkedStack

variable {α : Type}

/-- The cells that are met on the way down from a pointer. -/
inductive Chain (next : α → Option (Option α)) : Option α → List α → Prop where
  | nil : Chain next none []
  | cons {a : α} {q : Option α} {l : List α} : next a = some q → Chain next q l → Chain next (some a) (a :: l)

/-- The pointer is the top of a stack of all cells. -/
def Spans (next : α → Option (Option α)) (p : Option α) : Prop :=
  ∃ l, Chain next p l ∧ ∀ a, (next a).isSome → a ∈ l

variable {next next' : α → Option (Option α)} {p q : Option α} {a : α} {l : List α}

theorem Chain.unique {l' : List α} (h : Chain next p l) (h' : Chain next p l') : l = l' := by
  induction h generalizing l' with
  | nil => cases h'; rfl
  | cons ha _ ih =>
    cases h' with
    | cons ha' hl' =>
      have hq := Option.some.inj (ha.symm.trans ha')
      rw [ih (hq ▸ hl')]

/-- Every cell of a stack is the top of a part of it. -/
theorem Chain.split (h : Chain next p l) (ha : a ∈ l) : ∃ l₁ l₂, l = l₁ ++ a :: l₂ ∧ Chain next (some a) (a :: l₂) := by
  induction h with
  | nil => cases ha
  | @cons b q l hb hl ih =>
    rcases List.mem_cons.1 ha with rfl | ha
    · exact ⟨[], l, rfl, .cons hb hl⟩
    · obtain ⟨l₁, l₂, rfl, hc⟩ := ih ha
      exact ⟨b :: l₁, l₂, rfl, hc⟩

/-- A stack does not come back to its top. -/
theorem Chain.not_mem (h : Chain next (some a) (a :: l)) : a ∉ l := by
  intro ha
  cases h with
  | cons hn hl =>
    obtain ⟨l₁, l₂, rfl, hc⟩ := hl.split ha
    have h := congrArg List.length (hc.unique (.cons hn hl))
    simp only [List.length_cons, List.length_append] at h
    omega

theorem Chain.congr (h : Chain next p l) (hn : ∀ a ∈ l, next' a = next a) : Chain next' p l := by
  induction h with
  | nil => exact .nil
  | @cons b q l hb _ ih =>
    exact .cons ((hn b (by simp)).trans hb) (ih fun x hx => hn x (by simp [hx]))

theorem Chain.isSome (h : Chain next p l) (ha : a ∈ l) : (next a).isSome := by
  obtain ⟨_, _, _, hc⟩ := h.split ha
  cases hc with
  | cons hn _ => simp [hn]

/-- Every cell but the top one is pointed to. -/
theorem Chain.pointed (h : Chain next p l) (ha : a ∈ l) : p = some a ∨ ∃ x, next x = some (some a) := by
  induction h with
  | nil => cases ha
  | @cons b q l hb _ ih =>
    rcases List.mem_cons.1 ha with rfl | ha
    · exact .inl rfl
    · rcases ih ha with rfl | hx
      · exact .inr ⟨b, hb⟩
      · exact .inr hx

theorem Spans.nil (h : ∀ a, next a = none) : Spans next none :=
  ⟨[], .nil, fun a ha => by simp [h a] at ha⟩

/-- The top pointer does not dangle. -/
theorem Spans.top (h : Spans next (some a)) : ∃ q, next a = some q := by
  obtain ⟨l, hl, _⟩ := h
  cases hl with
  | cons ha _ => exact ⟨_, ha⟩

/-- There are no cells if the top pointer is null, -/
theorem Spans.eq_none (h : Spans next none) (a : α) : next a = none := by
  obtain ⟨l, hl, hall⟩ := h
  cases hl with
  | nil =>
    rcases hn : next a with _ | q
    · rfl
    · exact absurd (hall a (by simp [hn])) (by simp)

/-- and the top pointer is null if there are no cells. -/
theorem Spans.null (h : Spans next p) (hn : ∀ a, next a = none) : p = none := by
  rcases p with _ | a
  · rfl
  · obtain ⟨q, hq⟩ := h.top
    simp [hn a] at hq

theorem Spans.eq_top (h : Spans next p) (ha : (next a).isSome) (hx : ∀ x, next x ≠ some (some a)) : p = some a := by
  obtain ⟨l, hl, hall⟩ := h
  rcases hl.pointed (hall a ha) with hp | ⟨x, hp⟩
  · exact hp
  · exact absurd hp (hx x)

variable [DecidableEq α]

theorem Spans.push (h : Spans next p) (ha : next a = none) : Spans (Function.update next a (some p)) (some a) := by
  obtain ⟨l, hl, hall⟩ := h
  have hal : a ∉ l := fun hal => by simpa [ha] using hl.isSome hal
  refine ⟨a :: l, .cons (by simp) (hl.congr fun x hx => ?_), fun x hx => ?_⟩
  · exact Function.update_of_ne (ne_of_mem_of_not_mem hx hal) _ _
  · by_cases hxa : x = a
    · simp [hxa]
    · rw [Function.update_of_ne hxa] at hx
      exact List.mem_cons_of_mem _ (hall x hx)

theorem Spans.pop (h : Spans next (some a)) (ha : next a = some q) : Spans (Function.update next a none) q := by
  obtain ⟨l, hl, hall⟩ := h
  have hnot := hl
  cases hl with
  | @cons _ q' l hq hl =>
    obtain rfl := Option.some.inj (hq.symm.trans ha)
    have hal := hnot.not_mem
    refine ⟨l, hl.congr fun x hx => Function.update_of_ne (ne_of_mem_of_not_mem hx hal) _ _, fun x hx => ?_⟩
    by_cases hxa : x = a
    · simp [hxa] at hx
    · rw [Function.update_of_ne hxa] at hx
      exact (List.mem_cons.1 (hall x hx)).resolve_left hxa

end LinkedStack
