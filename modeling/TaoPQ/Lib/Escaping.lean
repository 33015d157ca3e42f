import Mathlib.Data.List.Basic

/-!
# Escaping

In a text whose separators are symbols like all others, a separator is meant literally when an escape symbol stands
before it.  A text is *guarded* when this is so for all separators in it, and when all its escape symbols have a
successor.  Guarded texts can be joined, and reading cuts the text exactly where they were joined.
-/

namespace Escaping

variable {α : Type}

/-- A separator behind each text is a separator between them, and one behind the last. -/
theorem flatMap_terminated (c : α) (t : List α) (ts : List (List α)) :
    (t :: ts).flatMap (· ++ [c]) = [c].intercalate (t :: ts) ++ [c] := by
  induction ts generalizing t with
  | nil => simp
  | cons u us ih =>
    rw [List.flatMap_cons, ih, List.intercalate_cons_cons]
    simp only [List.append_assoc]

/-- What is in texts that are joined is the symbol between them, or it is in one of the texts. -/
theorem mem_of_mem_intercalate {c b : α} {ts : List (List α)} (hb : b ∈ [c].intercalate ts) (hne : b ≠ c) :
    ∃ t ∈ ts, b ∈ t := by
  induction ts with
  | nil => simp at hb
  | cons t ts ih =>
    cases ts with
    | nil =>
      rw [List.intercalate_singleton] at hb
      exact ⟨t, List.mem_cons_self, hb⟩
    | cons u us =>
      rw [List.intercalate_cons_cons] at hb
      rcases List.mem_append.1 hb with hb | hb
      · rcases List.mem_append.1 hb with hb | hb
        · exact ⟨t, List.mem_cons_self, hb⟩
        · exact absurd (List.mem_singleton.1 hb) hne
      · obtain ⟨w, hw, hmem⟩ := ih hb
        exact ⟨w, List.mem_cons_of_mem t hw, hmem⟩

/-- The escape symbol is put before each of the special symbols. -/
def escape [DecidableEq α] (e : α) (special s : List α) : List α :=
  s.flatMap fun b => if b ∈ special then [e, b] else [b]

section Escape

variable [DecidableEq α] (e : α) (special : List α)

@[simp] theorem escape_nil : escape e special [] = [] := rfl

theorem escape_cons (b : α) (s : List α) :
    escape e special (b :: s) = (if b ∈ special then [e, b] else [b]) ++ escape e special s := List.flatMap_cons

theorem escape_append (s t : List α) : escape e special (s ++ t) = escape e special s ++ escape e special t :=
  List.flatMap_append

/-- Nothing else is put into the text. -/
theorem mem_of_mem_escape {s : List α} {b : α} (hb : b ∈ escape e special s) (hne : b ≠ e) : b ∈ s := by
  obtain ⟨c, hc, hmem⟩ := List.mem_flatMap.1 hb
  by_cases hspecial : c ∈ special
  · rw [if_pos hspecial] at hmem
    have hbc : b = c := by simpa [hne] using hmem
    exact hbc ▸ hc
  · rw [if_neg hspecial] at hmem
    exact List.mem_singleton.1 hmem ▸ hc

/-- Nothing is changed where there is nothing special. -/
theorem escape_eq_self {s : List α} (hs : ∀ b ∈ s, b ∉ special) : escape e special s = s := by
  induction s with
  | nil => rfl
  | cons b s ih =>
    rw [escape_cons, if_neg (hs b List.mem_cons_self), ih fun c hc => hs c (List.mem_cons_of_mem b hc)]
    rfl

end Escape

/-- All separators of the text have an escape symbol before them. -/
inductive Guarded (e : α) (seps : List α) : List α → Prop
  | nil : Guarded e seps []
  | plain {b : α} {s : List α} : b ≠ e → b ∉ seps → Guarded e seps s → Guarded e seps (b :: s)
  | escaped {b : α} {s : List α} : Guarded e seps s → Guarded e seps (e :: b :: s)

namespace Guarded

variable {e : α} {seps : List α}

theorem append {s t : List α} (hs : Guarded e seps s) (ht : Guarded e seps t) : Guarded e seps (s ++ t) := by
  induction hs with
  | nil => exact ht
  | plain hb hsep _ ih => exact .plain hb hsep ih
  | escaped _ ih => exact .escaped ih

/-- With fewer separators less has to be guarded. -/
theorem mono {s seps' : List α} (hs : Guarded e seps s) (h : ∀ b ∈ seps', b ∈ seps) : Guarded e seps' s := by
  induction hs with
  | nil => exact .nil
  | plain hb hsep _ ih => exact .plain hb (fun hmem => hsep (h _ hmem)) ih
  | escaped _ ih => exact .escaped ih

/-- Escaping guards a text against the symbols that it escapes. -/
theorem escape [DecidableEq α] {special : List α} (he : e ∈ special) (h : ∀ b ∈ seps, b ∈ special) (s : List α) :
    Guarded e seps (escape e special s) := by
  induction s with
  | nil => exact .nil
  | cons b s ih =>
    rw [escape_cons]
    by_cases hb : b ∈ special
    · rw [if_pos hb]
      exact .escaped ih
    · rw [if_neg hb]
      refine .plain ?_ (fun hsep => hb (h b hsep)) ih
      rintro rfl
      exact hb he

/-- Texts joined by something that is no separator here. -/
theorem intercalate {c : α} (hc : c ≠ e) (hsep : c ∉ seps) {ts : List (List α)} (h : ∀ t ∈ ts, Guarded e seps t) :
    Guarded e seps ([c].intercalate ts) := by
  induction ts with
  | nil => exact .nil
  | cons t ts ih =>
    have ht := h t List.mem_cons_self
    have hts := ih fun u hu => h u (List.mem_cons_of_mem t hu)
    cases ts with
    | nil => simpa using ht
    | cons u us =>
      rw [List.intercalate_cons_cons]
      exact (ht.append (.plain hc hsep .nil)).append hts

end Guarded

/-- A text that is written with escapes: its symbols are plain, or they are known and have an escape symbol before
them. -/
inductive Spelled (e : α) (plain known : α → Prop) : List α → Prop
  | nil : Spelled e plain known []
  | plain {b : α} {s : List α} : plain b → Spelled e plain known s → Spelled e plain known (b :: s)
  | escaped {b : α} {s : List α} : known b → Spelled e plain known s → Spelled e plain known (e :: b :: s)

namespace Spelled

variable {e : α} {plain known : α → Prop}

theorem of_plain {s : List α} (h : ∀ b ∈ s, plain b) : Spelled e plain known s := by
  induction s with
  | nil => exact .nil
  | cons b s ih =>
    obtain ⟨hb, hs⟩ := List.forall_mem_cons.1 h
    exact .plain hb (ih hs)

theorem append_escaped {before s : List α} {b : α} (h : ∀ c ∈ before, plain c) (hb : known b)
    (hs : Spelled e plain known s) : Spelled e plain known (before ++ e :: b :: s) := by
  induction before with
  | nil => exact .escaped hb hs
  | cons c before ih =>
    obtain ⟨hc, hbefore⟩ := List.forall_mem_cons.1 h
    exact .plain hc (ih hbefore)

/-- Up to the first escape symbol the symbols stand for themselves. -/
theorem split {s : List α} (h : Spelled e plain known s) : (∀ b ∈ s, plain b) ∨
    ∃ before b rest, s = before ++ e :: b :: rest ∧ (∀ c ∈ before, plain c) ∧ known b ∧ Spelled e plain known rest := by
  induction h with
  | nil => exact .inl (by simp)
  | @plain b s hb _ ih =>
    rcases ih with hs | ⟨before, c, rest, rfl, hbefore, hc, hrest⟩
    · exact .inl (List.forall_mem_cons.2 ⟨hb, hs⟩)
    · exact .inr ⟨b :: before, c, rest, rfl, List.forall_mem_cons.2 ⟨hb, hbefore⟩, hc, hrest⟩
  | @escaped b s hb hs _ => exact .inr ⟨[], b, s, rfl, by simp, hb, hs⟩

end Spelled

variable [DecidableEq α]

/-- The text is cut at the separators that no escape symbol stands before: `piece` has been read since the last of
them, and `escaped` says whether an escape symbol has just been read. -/
def splitFrom (e sep : α) (escaped : Bool) (piece : List α) : List α → List (List α)
  | [] => [piece]
  | b :: s =>
    if escaped then splitFrom e sep false (piece ++ [b]) s
    else if b = e then splitFrom e sep true (piece ++ [b]) s
    else if b = sep then piece :: splitFrom e sep false [] s
    else splitFrom e sep false (piece ++ [b]) s

/-- The pieces between the separators. -/
def split (e sep : α) (s : List α) : List (List α) := splitFrom e sep false [] s

section Split

variable {e sep : α}

/-- A guarded text is read as a part of one piece. -/
private theorem splitFrom_append {s : List α} (hs : Guarded e [sep] s) (piece rest : List α) :
    splitFrom e sep false piece (s ++ rest) = splitFrom e sep false (piece ++ s) rest := by
  induction hs generalizing piece with
  | nil => simp
  | plain hb hsep _ ih =>
    have hne := fun h => hsep (List.mem_singleton.mpr h)
    rw [List.cons_append, splitFrom, if_neg Bool.false_ne_true, if_neg hb, if_neg hne, ih]
    simp
  | escaped _ ih =>
    rw [List.cons_append, List.cons_append, splitFrom, if_neg Bool.false_ne_true, if_pos rfl, splitFrom, if_pos rfl,
      ih]
    simp

theorem split_guarded {s : List α} (hs : Guarded e [sep] s) : split e sep s = [s] := by
  have h := splitFrom_append hs [] []
  simpa [split, splitFrom] using h

/-- What follows the first separator is cut by itself. -/
theorem split_append_cons (hne : sep ≠ e) {s : List α} (hs : Guarded e [sep] s) (rest : List α) :
    split e sep (s ++ sep :: rest) = s :: split e sep rest := by
  unfold split
  rw [splitFrom_append hs, List.nil_append, splitFrom, if_neg Bool.false_ne_true, if_neg hne, if_pos rfl]

/-- Guarded texts that were joined come apart again. -/
theorem split_intercalate (hne : sep ≠ e) {ts : List (List α)} (hts : ts ≠ []) (h : ∀ t ∈ ts, Guarded e [sep] t) :
    split e sep ([sep].intercalate ts) = ts := by
  induction ts with
  | nil => exact absurd rfl hts
  | cons t ts ih =>
    have ht := h t List.mem_cons_self
    cases ts with
    | nil => simpa using split_guarded ht
    | cons u us =>
      have hrest := ih (List.cons_ne_nil u us) fun v hv => h v (List.mem_cons_of_mem t hv)
      rw [List.intercalate_cons_cons, List.append_assoc, List.singleton_append, split_append_cons hne ht, hrest]

end Split

/-! ### Quotes -/

section Quoted

variable {q : α}

/-- The text up to the closing quote, and what follows it.  A doubled quote stands for one. -/
def readQuoted (q : α) : List α → Option (List α × List α)
  | [] => none
  | b :: s =>
    if b ≠ q then (readQuoted q s).map fun p => (b :: p.1, p.2)
    else
      match s with
      | [] => some ([], [])
      | c :: t => if c = q then (readQuoted q t).map fun p => (q :: p.1, p.2) else some ([], c :: t)

theorem readQuoted_close {rest : List α} (h : rest.head? ≠ some q) : readQuoted q (q :: rest) = some ([], rest) := by
  unfold readQuoted
  rw [if_neg (not_not_intro rfl)]
  cases rest with
  | nil => rfl
  | cons c t =>
    have hc : c ≠ q := fun hq => h (congrArg some hq)
    exact if_neg hc

theorem readQuoted_doubled (s : List α) :
    readQuoted q (q :: q :: s) = (readQuoted q s).map fun p => (q :: p.1, p.2) := by
  rw [readQuoted, if_neg (not_not_intro rfl)]
  exact if_pos rfl

/-- What was quoted is read again, whatever it is. -/
theorem readQuoted_escape (s : List α) {rest : List α} (h : rest.head? ≠ some q) :
    readQuoted q (escape q [q] s ++ q :: rest) = some (s, rest) := by
  induction s with
  | nil => exact readQuoted_close h
  | cons b s ih =>
    rw [escape_cons]
    by_cases hb : b = q
    · subst hb
      rw [if_pos List.mem_cons_self, List.append_assoc]
      show readQuoted b (b :: b :: (escape b [b] s ++ b :: rest)) = _
      rw [readQuoted_doubled, ih]
      rfl
    · rw [if_neg (by simpa using hb), List.append_assoc]
      show readQuoted q (b :: (escape q [q] s ++ q :: rest)) = _
      unfold readQuoted
      rw [if_pos hb, ih]
      rfl

end Quoted

end Escaping
