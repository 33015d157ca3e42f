import Mathlib.Data.List.Basic
import Mathlib.Algebra.BigOperators.Group.List.Basic
import Mathlib.Algebra.Ring.Nat

/-!
# The position of a column (`internal/gen.hpp`, `internal/exclusive_scan.hpp`)

A parameter pack whose members have `Ns` columns each has their sum of columns in all.  `gen` computes for each of
them the member that it belongs to (`outer`) and its position there (`inner`), from the prefix sums of `Ns`.  Looked up
in this way, the columns are those of the members put one behind the other (`Gen.getElem_flatten`).
-/

namespace TaoPQ

/-- `exclusive_scan::partial_sum` -/
def partialSum (Ns : List Nat) (I : Nat) : Nat := (Ns.take I).sum

/-- `exclusive_scan` -/
def exclusiveScan (Ns : List Nat) : List Nat := (List.range Ns.length).map (partialSum Ns)

namespace Gen

variable (Ns : List Nat)

/-- `make::outer`: one less than the number of members that start at the column or before it. -/
def outer (I : Nat) : Nat := (exclusiveScan Ns).countP (· ≤ I) - 1

/-- `make::select` -/
def select (J : Nat) : Nat := (exclusiveScan Ns).getD J 0

/-- `make::inner` -/
def inner (I : Nat) : Nat := I - select Ns (outer Ns I)

/-- `make::outer_sequence` and `make::inner_sequence`, side by side. -/
def sequence : List (Nat × Nat) := (List.range Ns.sum).map fun I => (outer Ns I, inner Ns I)

end Gen

theorem exclusiveScan_cons (n : Nat) (Ns : List Nat) :
    exclusiveScan (n :: Ns) = 0 :: (exclusiveScan Ns).map (n + ·) := by
  unfold exclusiveScan
  rw [List.length_cons, List.range_succ_eq_map, List.map_cons, List.map_map, List.map_map]
  rfl

namespace Gen

variable {n I : Nat} {Ns : List Nat}

/-- The columns of the first member. -/
private theorem outer_cons_of_lt (h : I < n) : outer (n :: Ns) I = 0 := by
  have hrest : (exclusiveScan Ns).countP ((· ≤ I) ∘ (n + ·)) = 0 := by
    refine List.countP_eq_zero.mpr fun x _ => ?_
    simp only [Function.comp_apply, decide_eq_true_eq]
    omega
  unfold outer
  rw [exclusiveScan_cons, List.countP_cons, List.countP_map, hrest]
  simp

private theorem inner_cons_of_lt (h : I < n) : inner (n :: Ns) I = I := by
  unfold inner
  rw [outer_cons_of_lt h, select, exclusiveScan_cons]
  simp

/-- The columns of the other members, counted from where the first one ends. -/
private theorem outer_cons_add (hI : I < Ns.sum) : outer (n :: Ns) (n + I) = outer Ns I + 1 := by
  have hcount : 0 < (exclusiveScan Ns).countP (· ≤ I) := by
    cases Ns with
    | nil => simp at hI
    | cons m Ns =>
      rw [exclusiveScan_cons, List.countP_cons]
      simp
  have hshift : (exclusiveScan Ns).countP ((· ≤ n + I) ∘ (n + ·)) = (exclusiveScan Ns).countP (· ≤ I) := by
    refine List.countP_congr fun x _ => ?_
    simp
  unfold outer
  rw [exclusiveScan_cons, List.countP_cons, List.countP_map, hshift]
  simp only [Nat.zero_le, decide_true, if_true]
  omega

private theorem inner_cons_add (hI : I < Ns.sum) : inner (n :: Ns) (n + I) = inner Ns I := by
  unfold inner
  rw [outer_cons_add hI, select, exclusiveScan_cons, List.getD_cons_succ]
  have hlt : outer Ns I < (exclusiveScan Ns).length := by
    have hle := List.countP_le_length (p := (· ≤ I)) (l := exclusiveScan Ns)
    have hpos : 0 < (exclusiveScan Ns).length := by
      cases Ns with
      | nil => simp at hI
      | cons m Ns => simp [exclusiveScan_cons]
    unfold outer
    omega
  rw [List.getD_eq_getElem?_getD, List.getElem?_map, select, List.getD_eq_getElem?_getD,
    List.getElem?_eq_getElem hlt, Option.map_some, Option.getD_some, Option.getD_some]
  omega

theorem outer_le (Ns : List Nat) (I : Nat) : outer Ns I ≤ Ns.length - 1 := by
  have hle := List.countP_le_length (p := (· ≤ I)) (l := exclusiveScan Ns)
  rw [exclusiveScan, List.length_map, List.length_range] at hle
  exact Nat.sub_le_sub_right hle 1

/-- The columns are counted in the first member, then in the others. -/
theorem sequence_cons (n : Nat) (Ns : List Nat) :
    sequence (n :: Ns) = (List.range n).map (fun I => (0, I)) ++ (sequence Ns).map fun p => (p.1 + 1, p.2) := by
  unfold sequence
  rw [List.sum_cons, List.range_add, List.map_append, List.map_map, List.map_map]
  congr 1
  · refine List.map_congr_left fun I hI => ?_
    have hlt := List.mem_range.1 hI
    rw [outer_cons_of_lt hlt, inner_cons_of_lt hlt]
  · refine List.map_congr_left fun I hI => ?_
    have hlt := List.mem_range.1 hI
    simp only [Function.comp_apply]
    rw [outer_cons_add hlt, inner_cons_add hlt]

/-- Column `I` of the whole is column `inner I` of member `outer I`. -/
theorem getElem_flatten {α : Type} (ls : List (List α)) {I : Nat} (hI : I < (ls.map List.length).sum) :
    ls.flatten[I]? = ls[outer (ls.map List.length) I]?.bind fun l => l[inner (ls.map List.length) I]? := by
  induction ls generalizing I with
  | nil => simp at hI
  | cons l ls ih =>
    rw [List.map_cons, List.sum_cons] at hI
    rw [List.flatten_cons, List.map_cons]
    by_cases hlt : I < l.length
    · rw [outer_cons_of_lt hlt, inner_cons_of_lt hlt, List.getElem?_append_left hlt]
      rfl
    · obtain ⟨J, rfl⟩ := Nat.exists_eq_add_of_le (Nat.le_of_not_lt hlt)
      have hJ : J < (ls.map List.length).sum := by omega
      rw [outer_cons_add hJ, inner_cons_add hJ, List.getElem?_append_right (Nat.le_add_right _ _),
        Nat.add_sub_cancel_left, List.getElem?_cons_succ]
      exact ih hJ

end Gen

end TaoPQ
