import Mathlib.Data.List.Sort
import Mathlib.Data.List.Induction

/-!
# Ordered lists

Lists in the order of a key, into which elements are put one after the other.  With equal keys allowed, an element goes
behind those that have its key already, so that the elements with a key are those that were put in, in that order
(`filter_collect`).  Otherwise an element whose key is there is not put in, so that the first one stays
(`filter_collectNew`).
-/

namespace Ordered

variable {α κ : Type*} [LinearOrder κ] (key : α → κ)

/-- Put an element in behind all those whose keys are not greater. -/
def insertLast (x : α) (l : List α) : List α := l.orderedInsert (fun a b => key a < key b) x

/-- Put an element in, unless its key is there. -/
def insertNew (x : α) : List α → List α
  | [] => [x]
  | y :: l =>
    if key x < key y then x :: y :: l
    else if key y < key x then y :: insertNew x l
    else y :: l

/-- Put elements in one after the other. -/
def collect (xs : List α) : List α := xs.foldl (fun l x => insertLast key x l) []

/-- Put elements in one after the other, unless their keys are there. -/
def collectNew (xs : List α) : List α := xs.foldl (fun l x => insertNew key x l) []

/-- The keys do not decrease. -/
def Sorted (l : List α) : Prop := l.Pairwise fun a b => key a ≤ key b

/-- The keys increase. -/
def Increasing (l : List α) : Prop := l.Pairwise fun a b => key a < key b

variable {key} {x : α} {l : List α}

/-! ### One element -/

theorem mem_insertNew {y : α} (h : y ∈ insertNew key x l) : y = x ∨ y ∈ l := by
  induction l with
  | nil => exact .inl (List.mem_singleton.1 h)
  | cons z l ih =>
    unfold insertNew at h
    split at h
    · simpa using h
    · split at h
      · rcases List.mem_cons.1 h with rfl | h
        · exact .inr List.mem_cons_self
        · exact (ih h).imp_right (List.mem_cons_of_mem z)
      · exact .inr h

theorem insertLast_cons (y : α) : insertLast key x (y :: l) =
    if key x < key y then x :: y :: l else y :: insertLast key x l := List.orderedInsert_cons _ _ _ _

theorem Sorted.insertLast (h : Sorted key l) : Sorted key (insertLast key x l) := by
  induction l with
  | nil => exact List.pairwise_singleton _ x
  | cons y l ih =>
    obtain ⟨hy, hl⟩ := List.pairwise_cons.1 h
    rw [insertLast_cons]
    split
    · rename_i hlt
      refine List.pairwise_cons.2 ⟨fun z hz => ?_, h⟩
      rcases List.mem_cons.1 hz with rfl | hz
      · exact hlt.le
      · exact hlt.le.trans (hy z hz)
    · rename_i hlt
      refine List.pairwise_cons.2 ⟨fun z hz => ?_, ih hl⟩
      rcases (List.mem_orderedInsert _).1 hz with rfl | hz
      · exact not_lt.1 hlt
      · exact hy z hz

theorem Increasing.insertNew (h : Increasing key l) : Increasing key (insertNew key x l) := by
  induction l with
  | nil => exact List.pairwise_singleton _ x
  | cons y l ih =>
    obtain ⟨hy, hl⟩ := List.pairwise_cons.1 h
    unfold Ordered.insertNew
    split
    · rename_i hlt
      refine List.pairwise_cons.2 ⟨fun z hz => ?_, h⟩
      rcases List.mem_cons.1 hz with rfl | hz
      · exact hlt
      · exact hlt.trans (hy z hz)
    · split
      · rename_i hlt
        refine List.pairwise_cons.2 ⟨fun z hz => ?_, ih hl⟩
        rcases mem_insertNew hz with rfl | hz
        · exact hlt
        · exact hy z hz
      · exact h

/-- Elements with greater keys have other keys. -/
private theorem filter_eq_nil {k : κ} (h : ∀ y ∈ l, k < key y) : l.filter (fun y => key y = k) = [] := by
  refine List.filter_eq_nil_iff.2 fun y hy => ?_
  simpa using (h y hy).ne'

/-- The elements with a key, after an element is put in. -/
theorem filter_insertLast (h : Sorted key l) (k : κ) : (insertLast key x l).filter (fun y => key y = k) =
    l.filter (fun y => key y = k) ++ [x].filter (fun y => key y = k) := by
  induction l with
  | nil => rfl
  | cons y l ih =>
    obtain ⟨hy, hl⟩ := List.pairwise_cons.1 h
    rw [insertLast_cons]
    split
    · rename_i hlt
      by_cases hk : key x = k
      · have hnone : (y :: l).filter (fun y => key y = k) = [] := by
          refine filter_eq_nil (List.forall_mem_cons.2 ⟨hk ▸ hlt, fun z hz => ?_⟩)
          exact (hk ▸ hlt).trans_le (hy z hz)
        rw [List.filter_cons_of_pos (by simpa using hk), hnone]
        simp [hk]
      · simp [hk]
    · simp only [List.filter_cons, ih hl]
      split <;> rfl

/-- The element with a key, after an element is put in: one that was there stays. -/
theorem find?_insertNew (h : Increasing key l) (k : κ) : (insertNew key x l).find? (fun y => key y = k) =
    (l.find? (fun y => key y = k)).or ([x].find? (fun y => key y = k)) := by
  induction l with
  | nil => rfl
  | cons y l ih =>
    obtain ⟨hy, hl⟩ := List.pairwise_cons.1 h
    unfold insertNew
    split
    · rename_i hlt
      by_cases hk : key x = k
      · have hnone : (y :: l).find? (fun y => key y = k) = none := by
          refine List.find?_eq_none.2 (List.forall_mem_cons.2 ⟨?_, fun z hz => ?_⟩)
          · simpa using (hk ▸ hlt).ne'
          · simpa using ((hk ▸ hlt).trans (hy z hz)).ne'
        rw [hnone, List.find?_cons_of_pos (by simpa using hk), List.find?_cons_of_pos (by simpa using hk)]
        rfl
      · have hx : [x].find? (fun y => key y = k) = none := by simp [hk]
        rw [List.find?_cons_of_neg (by simpa using hk), hx, Option.or_none]
    · split
      · by_cases hk : key y = k
        · rw [List.find?_cons_of_pos (by simpa using hk), List.find?_cons_of_pos (by simpa using hk)]
          rfl
        · rw [List.find?_cons_of_neg (by simpa using hk), List.find?_cons_of_neg (by simpa using hk), ih hl]
      · rename_i hge hle
        have hxy : key x = key y := le_antisymm (not_lt.1 hle) (not_lt.1 hge)
        by_cases hk : key y = k
        · rw [List.find?_cons_of_pos (by simpa using hk)]
          rfl
        · have hx : [x].find? (fun y => key y = k) = none := by simp [hxy, hk]
          rw [hx, Option.or_none]

/-- Of the elements whose keys increase, one at most has a key. -/
theorem Increasing.filter (h : Increasing key l) (k : κ) :
    l.filter (fun y => key y = k) = (l.find? (fun y => key y = k)).toList := by
  induction l with
  | nil => rfl
  | cons y l ih =>
    obtain ⟨hy, hl⟩ := List.pairwise_cons.1 h
    by_cases hk : key y = k
    · have hnone : l.filter (fun y => key y = k) = [] := filter_eq_nil fun z hz => hk ▸ hy z hz
      simp [hk, hnone]
    · rw [List.filter_cons_of_neg (by simpa using hk), List.find?_cons_of_neg (by simpa using hk), ih hl]

/-! ### Any number of elements -/

variable (key) (xs : List α)

theorem sorted_collect : Sorted key (collect key xs) := by
  induction xs using List.reverseRecOn with
  | nil => exact List.Pairwise.nil
  | append_singleton xs x ih =>
    rw [collect, List.foldl_append]
    exact ih.insertLast

theorem increasing_collectNew : Increasing key (collectNew key xs) := by
  induction xs using List.reverseRecOn with
  | nil => exact List.Pairwise.nil
  | append_singleton xs x ih =>
    rw [collectNew, List.foldl_append]
    exact ih.insertNew

/-- The elements with a key are those that were put in, in that order. -/
theorem filter_collect (k : κ) :
    (collect key xs).filter (fun y => key y = k) = xs.filter (fun y => key y = k) := by
  induction xs using List.reverseRecOn with
  | nil => rfl
  | append_singleton xs x ih =>
    have hstep : collect key (xs ++ [x]) = insertLast key x (collect key xs) := by
      rw [collect, List.foldl_append]
      rfl
    rw [hstep, filter_insertLast (sorted_collect key xs), ih, List.filter_append]

/-- The element with a key is the first one with it that was put in. -/
theorem filter_collectNew (k : κ) :
    (collectNew key xs).filter (fun y => key y = k) = (xs.find? (fun y => key y = k)).toList := by
  have hfind : (collectNew key xs).find? (fun y => key y = k) = xs.find? (fun y => key y = k) := by
    induction xs using List.reverseRecOn with
    | nil => rfl
    | append_singleton xs x ih =>
      have hstep : collectNew key (xs ++ [x]) = insertNew key x (collectNew key xs) := by
        rw [collectNew, List.foldl_append]
        rfl
      rw [hstep, find?_insertNew (increasing_collectNew key xs), ih, List.find?_append]
  rw [(increasing_collectNew key xs).filter, hfind]

end Ordered
