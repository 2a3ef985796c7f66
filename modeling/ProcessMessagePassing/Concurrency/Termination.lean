import Mathlib.Algebra.BigOperators.Finprod
import Mathlib.Algebra.Order.BigOperators.Group.Finset
import ProcessMessagePassing.Concurrency.Run

/-! Systems that come to rest. Some of the steps of a system are work, and a measure that every
work step takes something from bounds how long the system can go on with nothing else. The work
left to many threads is the sum over the threads. -/
namespace Concurrency

variable {σ α ι : Type*} {step : σ → α → Option σ} {works : σ → α → Prop} {P : σ → Prop}
  {measure : σ → ℕ} {s s' : σ} {tr : List (σ × α)}

/-- No work step can be taken. -/
def AtRest (step : σ → α → Option σ) (works : σ → α → Prop) (s : σ) : Prop :=
  ∀ a, works s a → step s a = none

/-- Every work step keeps the invariant and takes something from the measure. -/
structure Settles (step : σ → α → Option σ) (works : σ → α → Prop) (P : σ → Prop)
    (measure : σ → ℕ) : Prop where
  keep : ∀ s a s', P s → works s a → step s a = some s' → P s'
  falls : ∀ s a s', P s → works s a → step s a = some s' → measure s' < measure s

namespace Settles

/-- What a run of work steps leaves of the measure. -/
theorem length_le (h : Settles step works P measure) (run : Run step s tr s') (init : P s)
    (working : ∀ x ∈ tr, works x.1 x.2) : P s' ∧ tr.length + measure s' ≤ measure s := by
  induction run with
  | refl => exact ⟨init,by simp⟩
  | @snoc tr t a t' prior taken ih =>
    have hwork : works t a := working (t,a) (by simp)
    obtain ⟨ht,hlen⟩ := ih fun x hx => working x (List.mem_append_left _ hx)
    have hfalls := h.falls t a t' ht hwork taken
    refine ⟨h.keep t a t' ht hwork taken,?_⟩
    rw [List.length_append,List.length_singleton]
    omega

/-- The work can be brought to an end. -/
theorem comes_to_rest (h : Settles step works P measure) (init : P s) :
    ∃ tr s', Run step s tr s' ∧ (∀ x ∈ tr, works x.1 x.2) ∧ AtRest step works s' := by
  induction hn : measure s using Nat.strong_induction_on generalizing s with
  | _ n ih =>
    by_cases hrest : AtRest step works s
    · exact ⟨[],s,.refl,by simp,hrest⟩
    · obtain ⟨a,hwork,htaken⟩ : ∃ a, works s a ∧ step s a ≠ none := by
        simpa [AtRest] using hrest
      obtain ⟨t,ht⟩ := Option.ne_none_iff_exists'.mp htaken
      have hfalls := h.falls s a t init hwork ht
      obtain ⟨tr,s',hrun,hworking,hend⟩ := ih (measure t) (hn ▸ hfalls) (h.keep s a t init hwork ht) rfl
      refine ⟨(s,a) :: tr,s',hrun.cons ht,?_,hend⟩
      intro x hx
      rcases List.mem_cons.mp hx with rfl | hx
      · exact hwork
      · exact hworking x hx

end Settles

/-- The sum over all threads, of which finitely many have anything to add. -/
noncomputable def total (f : ι → ℕ) : ℕ := ∑ᶠ i, f i

section Total
variable {f g : ι → ℕ}

lemma total_eq_sum {threads : Finset ι} (h : f.support ⊆ threads) : total f = ∑ i ∈ threads, f i :=
  finsum_eq_sum_of_support_subset f h

lemma total_le (finite : f.support.Finite) (h : ∀ i, g i ≤ f i) : total g ≤ total f := by
  have hf : f.support ⊆ finite.toFinset := by simp
  have hg : g.support ⊆ finite.toFinset := by
    refine Set.Subset.trans (fun i hi => ?_) hf
    have hpos : 0 < g i := Nat.pos_of_ne_zero hi
    exact Nat.ne_of_gt (Nat.lt_of_lt_of_le hpos (h i))
  rw [total_eq_sum hf,total_eq_sum hg]
  exact Finset.sum_le_sum fun i _ => h i

/-- One thread moves: the sum changes by what that thread adds to it. -/
lemma total_of_one (finite : f.support.Finite) (i : ι) (others : ∀ j, j ≠ i → g j = f j) :
    total g + f i = total f + g i := by
  classical
  obtain ⟨threads,hthreads⟩ : ∃ threads, threads = insert i finite.toFinset := ⟨_,rfl⟩
  have hi : i ∈ threads := hthreads ▸ Finset.mem_insert_self i _
  have hf : f.support ⊆ threads := by
    intro j hj
    rw [hthreads]
    exact Finset.mem_insert_of_mem (finite.mem_toFinset.mpr hj)
  have hg : g.support ⊆ threads := by
    intro j hj
    by_cases hji : j = i
    · rwa [hji]
    · apply hf
      rwa [Function.mem_support,← others j hji]
  have hothers : ∑ j ∈ threads.erase i, g j = ∑ j ∈ threads.erase i, f j :=
    Finset.sum_congr rfl fun j hj => others j (Finset.ne_of_mem_erase hj)
  rw [total_eq_sum hf,total_eq_sum hg,← Finset.add_sum_erase _ f hi,← Finset.add_sum_erase _ g hi,
    hothers]
  omega

end Total

/-- Where a second counter is at most the first, a step that takes from the first, or leaves it and
takes from the second, takes from this measure. -/
lemma square_falls {work turns work' turns' : ℕ} (bound : turns' ≤ work')
    (h : work' < work ∨ work' = work ∧ turns' < turns) :
    work'*work'+turns' < work*work+turns := by
  rcases h with h | ⟨rfl,h⟩
  · have hsquare : (work'+1)*(work'+1) ≤ work*work := Nat.mul_le_mul h h
    have hexpand : (work'+1)*(work'+1) = work'*work'+2*work'+1 := by ring
    omega
  · omega

end Concurrency
