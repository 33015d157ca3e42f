import Mathlib.Data.List.Basic

/-!
# Nested lists

Lists of lists of … of `α`, nested to a given depth; depth `0` is `α` itself.
-/

/-- Lists nested `d` deep. -/
def Vectors (α : Type) : Nat → Type
  | 0 => α
  | d + 1 => List (Vectors α d)

namespace Vectors

variable {α β : Type}

/-- What holds at the leaves, and of a list when it holds of everything in it, holds at all depths. -/
@[elab_as_elim]
theorem induction {P : (d : Nat) → Vectors α d → Prop} (leaf : ∀ x : α, P 0 x)
    (node : ∀ (d : Nat) (l : List (Vectors α d)), (∀ v ∈ l, P d v) → P (d + 1) l) (d : Nat) (v : Vectors α d) :
    P d v := by
  induction d with
  | zero => exact leaf v
  | succ d ih => exact node d v fun w _ => ih w

instance decEq [DecidableEq α] : (d : Nat) → DecidableEq (Vectors α d)
  | 0 => inferInstanceAs (DecidableEq α)
  | d + 1 => @instDecidableEqList _ (decEq d)

/-- Put together from below. -/
def fold (leaf : α → β) (node : List β → β) : (d : Nat) → Vectors α d → β
  | 0 => fun (x : α) => leaf x
  | d + 1 => fun (l : List (Vectors α d)) => node (l.map (fold leaf node d))

/-- The property holds of everything in the lists. -/
def All (P : α → Prop) : (d : Nat) → Vectors α d → Prop
  | 0 => fun (x : α) => P x
  | d + 1 => fun (l : List (Vectors α d)) => ∀ v ∈ l, All P d v

theorem All.mono {P Q : α → Prop} (h : ∀ x, P x → Q x) {d : Nat} {v : Vectors α d} (hv : All P d v) : All Q d v := by
  induction d, v using Vectors.induction with
  | leaf x => exact h x hv
  | node d l ih => exact fun w hw => ih w hw (hv w hw)

instance decidableAll (P : α → Prop) [DecidablePred P] : (d : Nat) → DecidablePred (All P d)
  | 0 => fun (x : α) => inferInstanceAs (Decidable (P x))
  | d + 1 => fun (l : List (Vectors α d)) =>
    have := decidableAll P d
    inferInstanceAs (Decidable (∀ v ∈ l, All P d v))

/-- A concrete value is checked by evaluation. -/
theorem All.of_decide {P : α → Prop} [DecidablePred P] {d : Nat} {v : Vectors α d}
    (h : decide (All P d v) = true) : All P d v := of_decide_eq_true h

/-! ### Elements replaced by others -/

section Replacement

variable {f : α → List α} (hf : ∀ x, f x ≠ [])

include hf

theorem length_le_flatMap (l : List α) : l.length ≤ (l.flatMap f).length := by
  induction l with
  | nil => simp
  | cons x l ih =>
    have hx := List.length_pos_iff.mpr (hf x)
    rw [List.flatMap_cons, List.length_append, List.length_cons]
    omega

/-- When nothing is dropped, a list stays as it is only if each element is replaced by itself. -/
theorem flatMap_eq_self_iff (l : List α) : l.flatMap f = l ↔ ∀ x ∈ l, f x = [x] := by
  induction l with
  | nil => simp
  | cons x l ih =>
    rw [List.flatMap_cons, List.forall_mem_cons]
    constructor
    · intro h
      -- the rest is at least as long as before, which leaves room for one element only
      have hone : (f x).length = 1 := by
        have hx := List.length_pos_iff.mpr (hf x)
        have htotal := congrArg List.length h
        have hrest := length_le_flatMap hf l
        rw [List.length_append, List.length_cons] at htotal
        omega
      obtain ⟨y, hy⟩ := List.length_eq_one_iff.mp hone
      rw [hy, List.singleton_append, List.cons.injEq] at h
      exact ⟨by rw [hy, h.1], ih.mp h.2⟩
    · rintro ⟨hx, hl⟩
      rw [hx, ih.mpr hl, List.singleton_append]

end Replacement

end Vectors
