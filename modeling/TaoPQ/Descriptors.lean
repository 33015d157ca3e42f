import TaoPQ.LargeObject
import Mathlib.Logic.Equiv.Basic

/-!
# The descriptors of a number

What is true of the descriptors that had a number, as long as a number is not used again while a large object refers to
it whose transaction has not ended: such a large object is the only one, and `lo_close` did not succeed for the latest
descriptor; all others are closed; and a descriptor for which `lo_close` was never called has an owner (`Accounted`).
This is kept when a descriptor is opened or closed, and when large objects are moved or let go.
-/

namespace TaoPQ

/-- What is true of a descriptor, where `refers` says which large objects refer to its number, with which
transactions. -/
structure Descriptor.Traced (refers : Nat → Addr → Prop) (d : Descriptor) : Prop where
  owned : d.closes = [] → ∃ x, refers x d.transaction
  closedLast : true ∉ d.closes.tail

/-- The descriptors of a number are accounted for, where `live` says which transactions have not ended. -/
structure Accounted (live : Addr → Prop) (refers : Nat → Addr → Prop) (ds : List Descriptor) : Prop where
  past : ∀ d ∈ ds.tail, d.isOpen = false
  called : ∀ d ∈ ds.tail, live d.transaction → d.closes ≠ []
  latest : ∀ x t, refers x t → live t → ∃ d ∈ ds.head?, d.transaction = t ∧ true ∉ d.closes
  sole : ∀ x y t, refers x t → refers y t → x = y
  traced : ∀ d ∈ ds, d.Traced refers

variable {live live' : Addr → Prop} {refers refers' : Nat → Addr → Prop} {ds : List Descriptor}
  {d : Descriptor} {x : Nat} {t : Addr}

namespace Descriptor.Traced

/-- Owners may change. -/
theorem mono (h : d.Traced refers)
    (howned : d.closes = [] → ∀ x, refers x d.transaction → ∃ y, refers' y d.transaction) : d.Traced refers' := by
  refine ⟨fun hcalls => ?_, h.closedLast⟩
  obtain ⟨x, hx⟩ := h.owned hcalls
  exact howned hcalls x hx

end Descriptor.Traced

/-- `lo_close` is called for a descriptor for which it did not succeed before. -/
theorem Descriptor.traced_close (hcloses : true ∉ d.closes) (ok : Bool) : (Descriptor.close ok d).Traced refers := by
  refine ⟨fun hcalls => ?_, hcloses⟩
  cases hcalls

namespace Accounted

theorem nil (hrefers : ∀ x t, ¬ refers x t) : Accounted live refers [] where
  past _ hd := absurd hd List.not_mem_nil
  called _ hd := absurd hd List.not_mem_nil
  latest x t hx := absurd hx (hrefers x t)
  sole x _ t hx := absurd hx (hrefers x t)
  traced _ hd := absurd hd List.not_mem_nil

theorem congr (h : Accounted live refers ds) (hrefers : ∀ x t, refers' x t ↔ refers x t) :
    Accounted live refers' ds := by
  have heq : refers' = refers := funext fun x => funext fun t => propext (hrefers x t)
  rwa [heq]

/-- Transactions that somebody refers to may end. -/
theorem mono (h : Accounted live refers ds) (hlive : ∀ x t, refers x t → live' t → live t) :
    Accounted live' refers ds where
  past := h.past
  called d hd ht hcalls := by
    obtain ⟨x, hx⟩ := (h.traced d (List.mem_of_mem_tail hd)).owned hcalls
    exact h.called d hd (hlive x d.transaction hx ht) hcalls
  latest x t hx ht := h.latest x t hx (hlive x t hx ht)
  sole := h.sole
  traced := h.traced

/-- It does not matter which large object is which. -/
theorem rename (h : Accounted live refers ds) (e : Equiv.Perm Nat) :
    Accounted live (fun x => refers (e x)) ds where
  past := h.past
  called := h.called
  latest x := h.latest (e x)
  sole x y t hx hy := e.injective (h.sole (e x) (e y) t hx hy)
  traced d hd := (h.traced d hd).mono fun _ x hx => ⟨e.symm x, by rwa [Equiv.apply_symm_apply]⟩

/-- A descriptor is opened, with a number to which nobody refers, unless his transaction has ended. -/
theorem opened (h : Accounted live refers ds) (hds : ∀ d ∈ ds.head?, d.isOpen = false)
    (hended : ∀ y u, refers y u → ¬ live u) (ht : live t) (x : Nat) (block : Option Addr) :
    Accounted live (fun y u => refers y u ∨ y = x ∧ u = t) (⟨t, block, true, []⟩ :: ds) := by
  constructor
  · cases ds with
    | nil => exact fun d hd => absurd hd List.not_mem_nil
    | cons e ds => exact List.forall_mem_cons.mpr ⟨hds e rfl, h.past⟩
  · intro d hd hlive hcalls
    obtain ⟨y, hy⟩ := (h.traced d hd).owned hcalls
    exact hended y _ hy hlive
  · rintro y u (hy | ⟨rfl, rfl⟩) hu
    · exact absurd hu (hended y u hy)
    · exact ⟨_, rfl, rfl, List.not_mem_nil⟩
  · rintro y z u (hy | ⟨rfl, rfl⟩) (hz | ⟨rfl, hu⟩)
    · exact h.sole y z u hy hz
    · exact absurd (hu ▸ ht) (hended y u hy)
    · exact absurd ht (hended z u hz)
    · rfl
  · refine List.forall_mem_cons.mpr ⟨?_, fun d hd => ?_⟩
    · exact ⟨fun _ => ⟨x, .inr ⟨rfl, rfl⟩⟩, List.not_mem_nil⟩
    · exact (h.traced d hd).mono fun _ y hy => ⟨y, .inl hy⟩

/-- An owner lets go of a descriptor for which `lo_close` was called. -/
theorem letGo (h : Accounted live refers ds)
    (hx : ∀ t, refers x t → ∀ d ∈ ds, d.transaction = t → d.closes ≠ []) :
    Accounted live (fun y t => refers y t ∧ y ≠ x) ds := by
  constructor
  · exact h.past
  · exact h.called
  · exact fun y t hy => h.latest y t hy.1
  · exact fun y z t hy hz => h.sole y z t hy.1 hz.1
  · refine fun d hd => (h.traced d hd).mono fun hcalls y hy => ⟨y, hy, ?_⟩
    rintro rfl
    exact hx _ hy d hd rfl hcalls

/-- `lo_close` is called by an owner, who lets go if it succeeds. -/
theorem closed (h : Accounted live refers ds) (hx : ∀ u, refers x u ↔ u = t) (ht : live t) (ok : Bool) :
    Accounted live (fun y u => refers y u ∧ (ok = true → y ≠ x)) (ds.modifyHead (Descriptor.close ok)) := by
  obtain ⟨d, hd, hdt, hcloses⟩ := h.latest x t ((hx t).mpr rfl) ht
  cases ds with
  | nil => cases hd
  | cons e ds =>
    obtain rfl := Option.some.inj hd
    constructor
    · exact h.past
    · exact h.called
    · rintro y u ⟨hy, hyx⟩ hu
      obtain ⟨f, hf, hfu, -⟩ := h.latest y u hy hu
      obtain rfl := Option.some.inj hf
      -- the two refer to the same descriptor, and are the same
      obtain rfl : y = x := h.sole y x u hy ((hx u).mpr (hfu.symm.trans hdt))
      have hok : ok = false := Bool.eq_false_iff.mpr fun hok => hyx hok rfl
      subst hok
      refine ⟨_, rfl, hfu, fun hin => ?_⟩
      rcases List.mem_cons.mp hin with hin | hin
      · cases hin
      · exact hcloses hin
    · exact fun y z u hy hz => h.sole y z u hy.1 hz.1
    · refine List.forall_mem_cons.mpr ⟨Descriptor.traced_close hcloses ok, fun f hf => ?_⟩
      refine (h.traced f (List.mem_cons_of_mem e hf)).mono fun hcalls y hy => ⟨y, hy, ?_⟩
      rintro - rfl
      have hft : f.transaction = t := (hx _).mp hy
      exact h.called f hf (hft ▸ ht) hcalls

/-- The server closes the latest descriptor. -/
theorem expired (h : Accounted live refers ds) :
    Accounted live refers (ds.modifyHead fun d => { d with isOpen := false }) := by
  cases ds with
  | nil => exact h
  | cons e ds =>
    have htraced := h.traced e List.mem_cons_self
    constructor
    · exact h.past
    · exact h.called
    · intro x t hx ht
      obtain ⟨d, hd, hlatest⟩ := h.latest x t hx ht
      obtain rfl := Option.some.inj hd
      exact ⟨_, rfl, hlatest⟩
    · exact h.sole
    · refine List.forall_mem_cons.mpr ⟨?_, fun d hd => h.traced d (List.mem_cons_of_mem e hd)⟩
      exact ⟨htraced.owned, htraced.closedLast⟩

end Accounted

end TaoPQ
