import Mathlib.Data.Set.Card
import Mathlib.Logic.Function.Basic

/-! Counting the clients of a shared object. Each client has a status and a predicate tells
which of them hold the object; a step changes the status of one client, so the number of
holders moves by at most one. -/
namespace Concurrency

variable {ι κ : Type*}

/-- The clients whose status satisfies `p`. -/
def holders (status : ι → κ) (p : κ → Prop) : Set ι := {i | p (status i)}

variable {status : ι → κ} {p : κ → Prop} {i : ι} {v : κ}

@[simp] theorem mem_holders {j : ι} : j ∈ holders status p ↔ p (status j) := Iff.rfl

section Update
variable [DecidableEq ι]

theorem holders_update_of_mem (hv : p v) :
    holders (Function.update status i v) p = insert i (holders status p) := by
  ext j
  by_cases hj : j = i
  · subst j; simp [hv]
  · simp [hj]

theorem holders_update_of_notMem (hv : ¬ p v) :
    holders (Function.update status i v) p = holders status p \ {i} := by
  ext j
  by_cases hj : j = i
  · subst j; simp [hv]
  · simp [hj]

theorem holders_update_eq (h : p v ↔ p (status i)) :
    holders (Function.update status i v) p = holders status p := by
  ext j
  by_cases hj : j = i
  · subst j; simp [h]
  · simp [hj]

end Update

/-- `count` is the number of holders, of which there are finitely many. -/
def Counts (count : ℤ) (status : ι → κ) (p : κ → Prop) : Prop :=
  (holders status p).Finite ∧ count = (holders status p).ncard

namespace Counts

variable {count : ℤ}

theorem nonneg (h : Counts count status p) : 0 ≤ count := by
  rw [h.2]; exact Int.natCast_nonneg _

theorem zero_iff (h : Counts count status p) : count = 0 ↔ ∀ i, ¬ p (status i) := by
  rw [h.2,Int.natCast_eq_zero,Set.ncard_eq_zero h.1,Set.eq_empty_iff_forall_notMem]
  rfl

/-- Nobody holds the object when every client has a status that does not. -/
theorem initial (h : ∀ i, ¬ p (status i)) : Counts 0 status p := by
  have he : holders status p = ∅ := Set.eq_empty_iff_forall_notMem.mpr h
  simp [Counts,he]

/-- One holder is the only one. -/
theorem eq_of_one (h : Counts count status p) (one : count = 1) {j : ι} (hi : p (status i))
    (hj : p (status j)) : i = j := by
  have hcard : (holders status p).ncard = 1 := by
    have hcount := h.2
    rw [one] at hcount
    exact_mod_cast hcount.symm
  obtain ⟨r,hr⟩ := Set.ncard_eq_one.mp hcard
  have hmem : ∀ k, p (status k) → k = r := by
    intro k hk
    have hin : k ∈ holders status p := hk
    rw [hr] at hin
    exact hin
  rw [hmem i hi,hmem j hj]

/-- There are no more holders than there are who can be one. -/
theorem le_ncard {γ : Type*} (h : Counts count status p) (f : γ → ι) {t : Set γ} (finite : t.Finite)
    (cover : ∀ i, p (status i) → ∃ j ∈ t, f j = i) : count ≤ t.ncard := by
  have hsub : holders status p ⊆ f '' t := cover
  have hle : (holders status p).ncard ≤ t.ncard :=
    (Set.ncard_le_ncard hsub (finite.image f)).trans (Set.ncard_image_le finite)
  rw [h.2]
  exact_mod_cast hle

variable [DecidableEq ι]

theorem unchanged (h : Counts count status p) (hv : p v ↔ p (status i)) :
    Counts count (Function.update status i v) p := by
  unfold Counts
  rw [holders_update_eq hv]
  exact h

theorem enter (h : Counts count status p) (hi : ¬ p (status i)) (hv : p v) :
    Counts (count+1) (Function.update status i v) p := by
  unfold Counts
  rw [holders_update_of_mem hv]
  refine ⟨h.1.insert i,?_⟩
  have hcard := Set.ncard_insert_of_notMem (show i ∉ holders status p from hi) h.1
  rw [hcard,h.2]
  exact (Int.natCast_succ _).symm

theorem leave (h : Counts count status p) (hi : p (status i)) (hv : ¬ p v) :
    Counts (count-1) (Function.update status i v) p := by
  unfold Counts
  rw [holders_update_of_notMem hv]
  refine ⟨h.1.sdiff,?_⟩
  have hcard := Set.ncard_sdiff_singleton_add_one (show i ∈ holders status p from hi) h.1
  rw [h.2]
  omega

end Counts
end Concurrency
