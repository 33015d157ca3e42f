/-!
# Running imperative code with exceptions

A computation over a state `σ` returns a value, throws an exception of type `ε`, or has undefined behaviour.  An
exception keeps the side effects made before it, as in C++, and undefined behaviour can not be caught.  The
predicate transformer `wp` gives the rules the proofs use: one equation for each way of combining computations
(`wp_bind`, `wp_catchAll`, `wp_zoom`, …), and monotonicity (`wp_mono`), by which a caller uses the specification of
a callee instead of its body.  Its first argument says what is asked where the behaviour is undefined: `False` to
prove that it never is, `True` to speak of the defined outcomes only.
-/

/-- What running a computation can lead to. -/
inductive Outcome (σ ε α : Type) where
  | ret (a : α) (s : σ)
  | throw (e : ε) (s : σ)
  | undefined

namespace Outcome

variable {σ ε α : Type}

/-- The outcome satisfies `Q` when it is a return, `E` when it is an exception, and `ub` holds when it is neither. -/
def Sat (ub : Prop) (Q : α → σ → Prop) (E : ε → σ → Prop) : Outcome σ ε α → Prop
  | ret a s => Q a s
  | throw e s => E e s
  | undefined => ub

/-- The state left behind, when the behaviour is defined. -/
def stateLeft : Outcome σ ε α → Option σ
  | ret _ s => some s
  | throw _ s => some s
  | undefined => none

/-- The exception, if one is thrown. -/
def thrown : Outcome σ ε α → Option ε
  | ret _ _ => none
  | throw e _ => some e
  | undefined => none

@[simp] theorem stateLeft_ret (a : α) (s : σ) : (ret a s : Outcome σ ε α).stateLeft = some s := rfl

@[simp] theorem stateLeft_throw (e : ε) (s : σ) : (throw e s : Outcome σ ε α).stateLeft = some s := rfl

@[simp] theorem stateLeft_undefined : (undefined : Outcome σ ε α).stateLeft = none := rfl

theorem Sat.mono {ub ub' : Prop} {Q Q' : α → σ → Prop} {E E' : ε → σ → Prop} {o : Outcome σ ε α}
    (h : o.Sat ub Q E) (hub : ub → ub') (hQ : ∀ a s, Q a s → Q' a s) (hE : ∀ e s, E e s → E' e s) :
    o.Sat ub' Q' E' := by
  cases o with
  | ret a s => exact hQ a s h
  | throw e s => exact hE e s h
  | undefined => exact hub h

theorem Sat.and {ub : Prop} {Q Q' : α → σ → Prop} {E E' : ε → σ → Prop} {o : Outcome σ ε α} (h : o.Sat ub Q E)
    (h' : o.Sat ub Q' E') : o.Sat ub (fun a s => Q a s ∧ Q' a s) (fun e s => E e s ∧ E' e s) := by
  cases o with
  | ret a s => exact ⟨h, h'⟩
  | throw e s => exact ⟨h, h'⟩
  | undefined => exact h

/-- A property that holds of the state on both ways out holds of the state left behind. -/
theorem Sat.of_stateLeft {ub : Prop} {P : σ → Prop} {o : Outcome σ ε α} (h : o.Sat ub (fun _ => P) (fun _ => P))
    {s : σ} (hs : o.stateLeft = some s) : P s := by
  cases o with
  | ret a s' => cases hs; exact h
  | throw e s' => cases hs; exact h
  | undefined => cases hs

/-- Conversely, undefined behaviour aside. -/
theorem Sat.of_forall_stateLeft {P : σ → Prop} {o : Outcome σ ε α} (h : ∀ s, o.stateLeft = some s → P s) :
    o.Sat True (fun _ => P) (fun _ => P) := by
  cases o with
  | ret a s => exact h s rfl
  | throw e s => exact h s rfl
  | undefined => exact trivial

end Outcome

/-- A computation: from a state to an outcome. -/
def Exec (σ ε α : Type) : Type := σ → Outcome σ ε α

namespace Exec

variable {σ τ ε α β : Type}

def pure (a : α) : Exec σ ε α := fun s => .ret a s

def bind (x : Exec σ ε α) (f : α → Exec σ ε β) : Exec σ ε β := fun s =>
  match x s with
  | .ret a s' => f a s'
  | .throw e s' => .throw e s'
  | .undefined => .undefined

instance : Monad (Exec σ ε) where
  pure := Exec.pure
  bind := Exec.bind

def throw (e : ε) : Exec σ ε α := fun s => .throw e s

/-- Undefined behaviour, such as dereferencing a null pointer. -/
def undefined : Exec σ ε α := fun _ => .undefined

def get : Exec σ ε σ := fun s => .ret s s

def modify (f : σ → σ) : Exec σ ε Unit := fun s => .ret () (f s)

/-- `try { x } catch( ... ) { h }`. -/
def catchAll (x : Exec σ ε α) (h : ε → Exec σ ε α) : Exec σ ε α := fun s =>
  match x s with
  | .ret a s' => .ret a s'
  | .throw e s' => h e s'
  | .undefined => .undefined

/-- Run `x`, then the clean-up `c` on both ways out, as the destructor of a local variable does. -/
def andFinally (x : Exec σ ε α) (c : Exec σ ε Unit) : Exec σ ε α := do
  let a ← catchAll x (fun e => do c; throw e)
  c
  return a

/-- Run a computation on a component of the state. -/
def zoom (read : σ → τ) (write : τ → σ → σ) (x : Exec τ ε α) : Exec σ ε α := fun s =>
  match x (read s) with
  | .ret a t => .ret a (write t s)
  | .throw e t => .throw e (write t s)
  | .undefined => .undefined

/-- The weakest precondition under which `x` returns into `Q` and throws into `E`, and is defined unless `ub`. -/
def wp (ub : Prop) (x : Exec σ ε α) (Q : α → σ → Prop) (E : ε → σ → Prop) (s : σ) : Prop := (x s).Sat ub Q E

section Rules

variable {ub : Prop} {Q : α → σ → Prop} {E : ε → σ → Prop} {s : σ}

@[simp] theorem wp_pure (a : α) : wp ub (Pure.pure a : Exec σ ε α) Q E s ↔ Q a s := Iff.rfl

@[simp] theorem wp_bind (x : Exec σ ε α) (f : α → Exec σ ε β) {Q : β → σ → Prop} :
    wp ub (x >>= f) Q E s ↔ wp ub x (fun a s => wp ub (f a) Q E s) E s := by
  show (Exec.bind x f s).Sat ub Q E ↔ (x s).Sat ub _ E
  unfold Exec.bind
  cases x s <;> rfl

@[simp] theorem wp_throw (e : ε) : wp ub (throw e : Exec σ ε α) Q E s ↔ E e s := Iff.rfl

@[simp] theorem wp_undefined : wp ub (undefined : Exec σ ε α) Q E s ↔ ub := Iff.rfl

@[simp] theorem wp_get {Q : σ → σ → Prop} : wp ub (get : Exec σ ε σ) Q E s ↔ Q s s := Iff.rfl

@[simp] theorem wp_modify (f : σ → σ) {Q : Unit → σ → Prop} :
    wp ub (modify f : Exec σ ε Unit) Q E s ↔ Q () (f s) := Iff.rfl

@[simp] theorem wp_catchAll (x : Exec σ ε α) (h : ε → Exec σ ε α) :
    wp ub (catchAll x h) Q E s ↔ wp ub x Q (fun e s => wp ub (h e) Q E s) s := by
  show (catchAll x h s).Sat ub Q E ↔ (x s).Sat ub Q _
  unfold catchAll
  cases x s <;> rfl

@[simp] theorem wp_andFinally (x : Exec σ ε α) (c : Exec σ ε Unit) :
    wp ub (andFinally x c) Q E s ↔
      wp ub x (fun a s => wp ub c (fun _ s => Q a s) E s) (fun e s => wp ub c (fun _ s => E e s) E s) s := by
  unfold andFinally
  simp only [wp_bind, wp_catchAll, wp_pure, wp_throw]

@[simp] theorem wp_zoom (read : σ → τ) (write : τ → σ → σ) (x : Exec τ ε α) :
    wp ub (zoom read write x) Q E s ↔
      wp ub x (fun a t => Q a (write t s)) (fun e t => E e (write t s)) (read s) := by
  show (zoom read write x s).Sat ub Q E ↔ (x (read s)).Sat ub _ _
  unfold zoom
  cases x (read s) <;> rfl

@[simp] theorem wp_ite (c : Prop) [Decidable c] (x y : Exec σ ε α) :
    wp ub (if c then x else y) Q E s ↔ (c → wp ub x Q E s) ∧ (¬ c → wp ub y Q E s) := by
  by_cases h : c <;> simp [h]

/-- The rule of consequence: a caller proves its postconditions from those of the callee. -/
theorem wp_mono {Q' : α → σ → Prop} {E' : ε → σ → Prop} {x : Exec σ ε α} (h : wp ub x Q E s)
    (hQ : ∀ a s, Q a s → Q' a s) (hE : ∀ e s, E e s → E' e s) : wp ub x Q' E' s :=
  Outcome.Sat.mono h id hQ hE

theorem wp_and {Q' : α → σ → Prop} {E' : ε → σ → Prop} {x : Exec σ ε α} (h : wp ub x Q E s)
    (h' : wp ub x Q' E' s) : wp ub x (fun a s => Q a s ∧ Q' a s) (fun e s => E e s ∧ E' e s) s :=
  Outcome.Sat.and h h'

/-- What is shown outright holds of the defined outcomes. -/
theorem wp_weaken {x : Exec σ ε α} (h : wp False x Q E s) : wp ub x Q E s :=
  Outcome.Sat.mono h False.elim (fun _ _ => id) fun _ _ => id

/-- Nothing has to be shown of a computation for postconditions that always hold. -/
theorem wp_trivial {x : Exec σ ε α} (hQ : ∀ a s, Q a s) (hE : ∀ e s, E e s) : wp True x Q E s := by
  show (x s).Sat True Q E
  cases x s with
  | ret a s => exact hQ a s
  | throw e s => exact hE e s
  | undefined => exact trivial

/-- The state that `x` leaves behind satisfies `P`, whether `x` returns or throws. -/
abbrev Leaves (x : Exec σ ε α) (P : σ → Prop) (s : σ) : Prop := wp True x (fun _ => P) (fun _ => P) s

theorem leaves_bind (x : Exec σ ε α) (f : α → Exec σ ε β) {P : σ → Prop} :
    Leaves (x >>= f) P s ↔ wp True x (fun a s => Leaves (f a) P s) (fun _ => P) s := wp_bind x f

theorem Leaves.mono {P P' : σ → Prop} {x : Exec σ ε α} (h : Leaves x P s) (hP : ∀ s, P s → P' s) : Leaves x P' s :=
  wp_mono h (fun _ => hP) (fun _ => hP)

theorem Leaves.and {P P' : σ → Prop} {x : Exec σ ε α} (h : Leaves x P s) (h' : Leaves x P' s) :
    Leaves x (fun s => P s ∧ P' s) s := wp_and h h'

theorem Leaves.all {ι : Sort _} {P : ι → σ → Prop} {x : Exec σ ε α} (h : ∀ i, Leaves x (P i) s) :
    Leaves x (fun s => ∀ i, P i s) s := by
  unfold Leaves wp at h ⊢
  cases hx : x s with
  | ret a s' =>
    simp only [hx] at h
    exact h
  | throw e s' =>
    simp only [hx] at h
    exact h
  | undefined => exact trivial

/-- The behaviour of `x` is defined. -/
abbrev Defined (x : Exec σ ε α) (s : σ) : Prop := wp False x (fun _ _ => True) (fun _ _ => True) s

theorem defined_iff_stateLeft {x : Exec σ ε α} : Defined x s ↔ (x s).stateLeft.isSome := by
  unfold Defined wp
  cases x s <;> simp [Outcome.Sat]

/-- The behaviour of `x` is defined, and `x` does not throw. -/
abbrev Returns (x : Exec σ ε α) (s : σ) : Prop := wp False x (fun _ _ => True) (fun _ _ => False) s

/-- What is shown of the defined outcomes holds outright when there are no others. -/
theorem wp_of_defined {x : Exec σ ε α} (h : Defined x s) (h' : wp True x Q E s) : wp False x Q E s := by
  unfold Defined wp at h
  unfold wp at h' ⊢
  cases hx : x s with
  | ret a s' =>
    rw [hx] at h'
    exact h'
  | throw e s' =>
    rw [hx] at h'
    exact h'
  | undefined =>
    rw [hx] at h
    exact h.elim

theorem Returns.defined {x : Exec σ ε α} (h : Returns x s) : Defined x s :=
  wp_mono h (fun _ _ => id) fun _ _ => False.elim

theorem wp_of_returns {x : Exec σ ε α} (h : Returns x s) {E' : ε → σ → Prop} (h' : wp True x Q E s) :
    wp False x Q E' s :=
  wp_mono (wp_and h (wp_of_defined h.defined h')) (fun _ _ hq => hq.2) fun _ _ he => he.1.elim

theorem wp_ret {x : Exec σ ε α} (h : wp ub x Q E s) {a : α} {s' : σ} (hs : x s = .ret a s') : Q a s' := by
  unfold wp at h
  rw [hs] at h
  exact h

theorem wp_thrown {x : Exec σ ε α} (h : wp ub x Q E s) {e : ε} {s' : σ} (hs : x s = .throw e s') : E e s' := by
  unfold wp at h
  rw [hs] at h
  exact h

theorem eq_undefined {x : Exec σ ε α} (h : wp True x (fun _ _ => False) (fun _ _ => False) s) : x s = .undefined := by
  unfold wp at h
  cases hx : x s with
  | undefined => rfl
  | ret a s' =>
    rw [hx] at h
    exact h.elim
  | throw e s' =>
    rw [hx] at h
    exact h.elim

/-- After a first part that returns, what remains is run. -/
theorem bind_ret {x : Exec σ ε α} {a : α} {s' : σ} (h : x s = .ret a s') (f : α → Exec σ ε β) :
    (x >>= f) s = f a s' := by
  show Exec.bind x f s = f a s'
  unfold Exec.bind
  rw [h]

/-- After a first part that throws, what remains is not run. -/
theorem bind_throw {x : Exec σ ε α} {e : ε} {s' : σ} (h : x s = .throw e s') (f : α → Exec σ ε β) :
    (x >>= f) s = .throw e s' := by
  show Exec.bind x f s = .throw e s'
  unfold Exec.bind
  rw [h]

theorem bind_undefined {x : Exec σ ε α} (h : x s = .undefined) (f : α → Exec σ ε β) : (x >>= f) s = .undefined := by
  show Exec.bind x f s = .undefined
  unfold Exec.bind
  rw [h]

theorem wp_of_ret {x : Exec σ ε α} {a : α} {s' : σ} (h : x s = .ret a s') (hQ : Q a s') : wp ub x Q E s := by
  unfold wp
  rw [h]
  exact hQ

theorem zoom_ret {read : σ → τ} (write : τ → σ → σ) {x : Exec τ ε α} {a : α} {t : τ} (h : x (read s) = .ret a t) :
    zoom read write x s = .ret a (write t s) := by
  unfold zoom
  rw [h]

theorem zoom_throw {read : σ → τ} (write : τ → σ → σ) {x : Exec τ ε α} {e : ε} {t : τ} (h : x (read s) = .throw e t) :
    zoom read write x s = .throw e (write t s) := by
  unfold zoom
  rw [h]

theorem zoom_undefined {read : σ → τ} (write : τ → σ → σ) {x : Exec τ ε α} (h : x (read s) = .undefined) :
    zoom read write x s = .undefined := by
  unfold zoom
  rw [h]

/-- A computation that is defined returns or throws. -/
theorem ret_or_throw {x : Exec σ ε α} (h : wp False x Q E s) :
    (∃ a s', x s = .ret a s' ∧ Q a s') ∨ ∃ e s', x s = .throw e s' ∧ E e s' := by
  unfold wp at h
  cases hx : x s with
  | ret a s' =>
    rw [hx] at h
    exact .inl ⟨a, s', rfl, h⟩
  | throw e s' =>
    rw [hx] at h
    exact .inr ⟨e, s', rfl, h⟩
  | undefined =>
    rw [hx] at h
    exact h.elim

/-- A computation that is defined and can not throw returns. -/
theorem exists_ret {x : Exec σ ε α} (h : wp False x Q (fun _ _ => False) s) : ∃ a s', x s = .ret a s' ∧ Q a s' := by
  rcases ret_or_throw h with hret | ⟨_, _, _, hfalse⟩
  · exact hret
  · exact hfalse.elim

/-- A computation that is defined and can not return throws. -/
theorem exists_throw {x : Exec σ ε α} (h : wp False x (fun _ _ => False) E s) : ∃ e s', x s = .throw e s' ∧ E e s' := by
  rcases ret_or_throw h with ⟨_, _, _, hfalse⟩ | hthrow
  · exact hfalse.elim
  · exact hthrow

end Rules

/-- The behaviour of `x` is defined in every state. -/
def Total (x : Exec σ ε α) : Prop := ∀ s, Defined x s

namespace Total

theorem pure (a : α) : Total (Pure.pure a : Exec σ ε α) := fun _ => trivial

theorem throw (e : ε) : Total (Exec.throw e : Exec σ ε α) := fun _ => trivial

theorem get : Total (Exec.get : Exec σ ε σ) := fun _ => trivial

theorem modify (f : σ → σ) : Total (Exec.modify f : Exec σ ε Unit) := fun _ => trivial

theorem bind {x : Exec σ ε α} {f : α → Exec σ ε β} (hx : Total x) (hf : ∀ a, Total (f a)) : Total (x >>= f) := by
  intro s
  show wp False _ _ _ s
  rw [wp_bind]
  exact wp_mono (hx s) (fun a s' _ => hf a s') (fun _ _ => id)

theorem ite {c : Prop} [Decidable c] {x y : Exec σ ε α} (hx : Total x) (hy : Total y) :
    Total (if c then x else y) := by
  split
  · exact hx
  · exact hy

end Total

/-- Whatever `x` does, it does not throw. -/
def NeverThrows (x : Exec σ ε α) : Prop := ∀ s, wp True x (fun _ _ => True) (fun _ _ => False) s

namespace NeverThrows

theorem pure (a : α) : NeverThrows (Pure.pure a : Exec σ ε α) := fun _ => trivial

theorem undefined : NeverThrows (Exec.undefined : Exec σ ε α) := fun _ => trivial

theorem get : NeverThrows (Exec.get : Exec σ ε σ) := fun _ => trivial

theorem modify (f : σ → σ) : NeverThrows (Exec.modify f : Exec σ ε Unit) := fun _ => trivial

theorem bind {x : Exec σ ε α} {f : α → Exec σ ε β} (hx : NeverThrows x) (hf : ∀ a, NeverThrows (f a)) :
    NeverThrows (x >>= f) := by
  intro s
  rw [wp_bind]
  exact wp_mono (hx s) (fun a s' _ => hf a s') (fun _ _ => id)

theorem ite {c : Prop} [Decidable c] {x y : Exec σ ε α} (hx : NeverThrows x) (hy : NeverThrows y) :
    NeverThrows (if c then x else y) := by
  split
  · exact hx
  · exact hy

/-- What is caught does not get out. -/
theorem catchAll (x : Exec σ ε α) {h : ε → Exec σ ε α} (hh : ∀ e, NeverThrows (h e)) :
    NeverThrows (Exec.catchAll x h) := by
  intro s
  rw [wp_catchAll]
  have hx : wp True x (fun _ _ => True) (fun _ _ => True) s := wp_trivial (fun _ _ => trivial) fun _ _ => trivial
  exact wp_mono hx (fun _ _ => id) fun e s' _ => hh e s'

end NeverThrows

end Exec
