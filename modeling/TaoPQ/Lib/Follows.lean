import Mathlib.Order.Defs.Unbundled
import TaoPQ.Lib.Exec

/-!
# What a computation can not undo

`Follows R x` says that the state that `x` leaves behind is related by `R` to the state it was started in, whether it
returns or throws.  For a preorder `R` this is kept by every way of combining computations, so that it has to be
shown for the primitive ones only.  Typical relations say that a part of the state is unchanged, or only grows.
-/

namespace Exec

variable {σ τ ε α β : Type} {R : σ → σ → Prop}

/-- Whatever `x` does, the state afterwards is related to the state before. -/
def Follows (R : σ → σ → Prop) (x : Exec σ ε α) : Prop := ∀ s, wp True x (fun _ => R s) (fun _ => R s) s

namespace Follows

/-- A caller relies on the relation only. -/
theorem wp_of {x : Exec σ ε α} (h : Follows R x) {Q : α → σ → Prop} {E : ε → σ → Prop} {s : σ}
    (hQ : ∀ a s', R s s' → Q a s') (hE : ∀ e s', R s s' → E e s') : wp True x Q E s := wp_mono (h s) hQ hE

theorem leaves {x : Exec σ ε α} (h : Follows R x) {P : σ → Prop} {s : σ} (hP : ∀ s', R s s' → P s') : Leaves x P s :=
  Leaves.mono (h s) hP

theorem mono {R' : σ → σ → Prop} {x : Exec σ ε α} (h : Follows R x) (hR : ∀ s s', R s s' → R' s s') : Follows R' x :=
  fun s => h.leaves (hR s)

theorem and {R' : σ → σ → Prop} {x : Exec σ ε α} (h : Follows R x) (h' : Follows R' x) :
    Follows (fun s s' => R s s' ∧ R' s s') x := fun s => Leaves.and (h s) (h' s)

theorem undefined : Follows R (Exec.undefined : Exec σ ε α) := fun _ => trivial

theorem modify {f : σ → σ} (h : ∀ s, R s (f s)) : Follows R (Exec.modify f : Exec σ ε Unit) := fun s => h s

theorem ite {c : Prop} [Decidable c] {x y : Exec σ ε α} (hx : Follows R x) (hy : Follows R y) :
    Follows R (if c then x else y) := by
  split
  · exact hx
  · exact hy

theorem zoom {R' : τ → τ → Prop} {read : σ → τ} {write : τ → σ → σ} {x : Exec τ ε α} (h : Follows R' x)
    (hw : ∀ s t, R' (read s) t → R s (write t s)) : Follows R (Exec.zoom read write x) := by
  intro s
  rw [wp_zoom]
  exact h.leaves (hw s)

section Reflexive

variable [Std.Refl R]

theorem pure (a : α) : Follows R (Pure.pure a : Exec σ ε α) := fun s => refl (r := R) s

theorem throw (e : ε) : Follows R (Exec.throw e : Exec σ ε α) := fun s => refl (r := R) s

theorem get : Follows R (Exec.get : Exec σ ε σ) := fun s => refl (r := R) s

end Reflexive

section Transitive

variable [IsTrans σ R]

theorem bind {x : Exec σ ε α} {f : α → Exec σ ε β} (hx : Follows R x) (hf : ∀ a, Follows R (f a)) :
    Follows R (x >>= f) := by
  intro s
  rw [wp_bind]
  refine hx.wp_of (fun a s₁ h₁ => ?_) (fun _ _ => id)
  exact (hf a).leaves fun s₂ h₂ => IsTrans.trans s s₁ s₂ h₁ h₂

theorem catchAll {x : Exec σ ε α} {h : ε → Exec σ ε α} (hx : Follows R x) (hh : ∀ e, Follows R (h e)) :
    Follows R (Exec.catchAll x h) := by
  intro s
  rw [wp_catchAll]
  refine hx.wp_of (fun _ _ => id) (fun e s₁ h₁ => ?_)
  exact (hh e).leaves fun s₂ h₂ => IsTrans.trans s s₁ s₂ h₁ h₂

end Transitive

theorem andFinally [IsPreorder σ R] {x : Exec σ ε α} {c : Exec σ ε Unit} (hx : Follows R x) (hc : Follows R c) :
    Follows R (Exec.andFinally x c) :=
  bind (catchAll hx fun e => bind hc fun _ => throw e) fun _ => bind hc fun _ => pure _

end Follows

end Exec
