import Mathlib.Dynamics.PeriodicPts.Defs
import Mathlib.Tactic.Common

/-! A loop that tries one place after the other until a test stops it. It stops at the first place
where the test says so; one that comes back to where it has begun stops in its first round or never. -/
namespace Concurrency.Search
open Function

variable {σ β : Type*} (test : σ → Option β) (next : σ → σ)

/-- The first `n` rounds of the loop: the result, if one of them stops it. -/
def run : ℕ → σ → Option β
  | 0,_ => none
  | n + 1,x =>
    match test x with
    | some b => some b
    | none => run n (next x)

/-- The loop stops for its first reason. -/
def FirstAt (x : σ) (i : ℕ) (b : β) : Prop :=
  test (next^[i] x) = some b ∧ ∀ j < i, test (next^[j] x) = none

variable {test next} {x : σ} {b : β} {n m i : ℕ}

lemma firstAt_zero : FirstAt test next x 0 b ↔ test x = some b :=
  ⟨And.left,fun h => ⟨h,fun _ hj => absurd hj (Nat.not_lt_zero _)⟩⟩

lemma firstAt_succ : FirstAt test next x (i + 1) b ↔
    test x = none ∧ FirstAt test next (next x) i b := by
  unfold FirstAt
  rw [iterate_succ_apply]
  constructor
  · rintro ⟨hb,hnone⟩
    refine ⟨hnone 0 (Nat.succ_pos i),hb,fun j hj => ?_⟩
    rw [← iterate_succ_apply]
    exact hnone (j + 1) (Nat.succ_lt_succ hj)
  · rintro ⟨hx,hb,hnone⟩
    refine ⟨hb,fun j hj => ?_⟩
    cases j with
    | zero => exact hx
    | succ j =>
      rw [iterate_succ_apply]
      exact hnone j (Nat.lt_of_succ_lt_succ hj)

theorem run_eq_some_iff : run test next n x = some b ↔ ∃ i < n, FirstAt test next x i b := by
  induction n generalizing x with
  | zero => simp [run]
  | succ n ih =>
    cases hx : test x with
    | some c =>
      simp only [run,hx,Option.some.injEq]
      constructor
      · rintro rfl
        exact ⟨0,Nat.succ_pos n,firstAt_zero.mpr hx⟩
      · rintro ⟨i,-,hi⟩
        cases i with
        | zero =>
          rw [firstAt_zero,hx] at hi
          exact Option.some.inj hi
        | succ i =>
          rw [firstAt_succ,hx] at hi
          cases hi.1
    | none =>
      simp only [run,hx,ih]
      constructor
      · rintro ⟨i,hi,hfirst⟩
        exact ⟨i + 1,Nat.succ_lt_succ hi,firstAt_succ.mpr ⟨hx,hfirst⟩⟩
      · rintro ⟨i,hi,hfirst⟩
        cases i with
        | zero =>
          rw [firstAt_zero,hx] at hfirst
          cases hfirst
        | succ i => exact ⟨i,Nat.lt_of_succ_lt_succ hi,(firstAt_succ.mp hfirst).2⟩

theorem run_eq_none_iff : run test next n x = none ↔ ∀ i < n, test (next^[i] x) = none := by
  induction n generalizing x with
  | zero => simp [run]
  | succ n ih =>
    cases hx : test x with
    | some c =>
      simp only [run,hx,reduceCtorEq,false_iff]
      intro hall
      have hzero := hall 0 (Nat.succ_pos n)
      rw [iterate_zero_apply,hx] at hzero
      cases hzero
    | none =>
      simp only [run,hx,ih]
      constructor
      · intro hall i hi
        cases i with
        | zero => exact hx
        | succ i => exact hall i (Nat.lt_of_succ_lt_succ hi)
      · exact fun hall i hi => hall (i + 1) (Nat.succ_lt_succ hi)

/-- A loop that has stopped stays so, however long it is watched. -/
theorem run_mono (h : run test next n x = some b) (le : n ≤ m) : run test next m x = some b := by
  rw [run_eq_some_iff] at h ⊢
  obtain ⟨i,hi,hfirst⟩ := h
  exact ⟨i,Nat.lt_of_lt_of_le hi le,hfirst⟩

/-- Where the places come round, the first round decides. -/
theorem run_of_period (period : IsPeriodicPt next n x) (pos : 0 < n)
    (h : run test next n x = none) (m : ℕ) : run test next m x = none := by
  rw [run_eq_none_iff] at h ⊢
  intro i hi
  rw [← period.iterate_mod_apply]
  exact h (i % n) (Nat.mod_lt i pos)

/-- However long a loop of that kind is watched, it gives the result of the first round or none. -/
theorem run_eq_or (period : IsPeriodicPt next n x) (pos : 0 < n) (m : ℕ) :
    run test next m x = none ∨ run test next m x = run test next n x := by
  cases hn : run test next n x with
  | none => exact .inl (run_of_period period pos hn m)
  | some b =>
    rcases Nat.le_total n m with hle | hle
    · exact .inr (run_mono hn hle)
    · cases hm : run test next m x with
      | none => exact .inl rfl
      | some c =>
        have hc := run_mono hm hle
        rw [hn] at hc
        exact .inr hc.symm

end Concurrency.Search
