import Mathlib.Data.List.Basic
import Mathlib.Tactic.Common

/-! Finite runs of a partial step function. Every choice of the scheduler and of the
environment is part of the action, so a run is determined by its actions; the trace keeps
each action together with the state it was taken in. -/
namespace Concurrency

variable {σ α : Type*} {step : σ → α → Option σ} {s₀ s s' : σ} {tr tr' : List (σ × α)}

/-- Of two places in a list, they are the same or one comes before the other. -/
theorem split_cases {β : Type*} {before after before' after' : List β} {x x' : β}
    (h : before ++ x :: after = before' ++ x' :: after') : before = before' ∧ x = x' ∨
      (∃ mid, before' = before ++ x :: mid) ∨ ∃ mid, before = before' ++ x' :: mid := by
  rcases List.append_eq_append_iff.mp h with ⟨mid,hb,ha⟩ | ⟨mid,hb,ha⟩
  · cases mid with
    | nil =>
      rw [List.append_nil] at hb
      exact .inl ⟨hb.symm,(List.cons.inj ha).1⟩
    | cons y mid =>
      rw [(List.cons.inj ha).1]
      exact .inr (.inl ⟨mid,hb⟩)
  · cases mid with
    | nil =>
      rw [List.append_nil] at hb
      exact .inl ⟨hb,(List.cons.inj ha).1.symm⟩
    | cons y mid =>
      rw [(List.cons.inj ha).1]
      exact .inr (.inr ⟨mid,hb⟩)

/-- A run from `s₀`, extended at its end by one action at a time. -/
inductive Run (step : σ → α → Option σ) (s₀ : σ) : List (σ × α) → σ → Prop
  | refl : Run step s₀ [] s₀
  | snoc {tr s a s'} (prior : Run step s₀ tr s) (taken : step s a = some s') :
      Run step s₀ (tr ++ [(s,a)]) s'

/-- Take the actions in order; the result is the trace and the state reached. -/
def execute (step : σ → α → Option σ) (s : σ) : List α → Option (List (σ × α) × σ)
  | [] => some ([],s)
  | a :: as => (step s a).bind fun s' =>
    (execute step s' as).map fun r => ((s,a) :: r.1,r.2)

namespace Run

theorem single {a : α} (taken : step s a = some s') : Run step s [(s,a)] s' :=
  snoc refl taken

theorem append (h : Run step s₀ tr s) (h' : Run step s tr' s') :
    Run step s₀ (tr ++ tr') s' := by
  induction h' with
  | refl => simpa using h
  | snoc prior taken ih =>
    rw [← List.append_assoc]
    exact snoc ih taken

theorem cons {a : α} (taken : step s₀ a = some s) (h : Run step s tr s') :
    Run step s₀ ((s₀,a) :: tr) s' :=
  append (single taken) h

/-- The last entry of a trace is the last step of the run. -/
theorem last {x : σ × α} (h : Run step s₀ (tr ++ [x]) s) :
    Run step s₀ tr x.1 ∧ step x.1 x.2 = some s := by
  generalize htr : tr ++ [x] = l at h
  cases h with
  | refl => simp at htr
  | snoc prior taken =>
    obtain ⟨rfl,hx⟩ := List.append_inj' htr rfl
    cases hx
    exact ⟨prior,taken⟩

/-- Every entry of a trace splits the run into what came before it, its own step and
what came after it. -/
theorem split (h : Run step s₀ tr s) {x : σ × α} (hx : x ∈ tr) :
    ∃ before after t, tr = before ++ x :: after ∧ Run step s₀ before x.1 ∧
      step x.1 x.2 = some t ∧ Run step t after s := by
  induction h with
  | refl => simp at hx
  | @snoc tr s a s' prior taken ih =>
    rcases List.mem_append.mp hx with hx | hx
    · obtain ⟨before,after,t,rfl,hb,ht,ha⟩ := ih hx
      exact ⟨before,after ++ [(s,a)],t,by simp,hb,ht,snoc ha taken⟩
    · obtain rfl := List.mem_singleton.mp hx
      exact ⟨tr,[],s',rfl,prior,taken,refl⟩

/-- The same for a given place in the trace. -/
theorem split_at {before after : List (σ × α)} {x : σ × α}
    (h : Run step s₀ (before ++ x :: after) s) :
    ∃ t, Run step s₀ before x.1 ∧ step x.1 x.2 = some t ∧ Run step t after s := by
  generalize htr : before ++ x :: after = tr at h
  induction h generalizing after with
  | refl => simp at htr
  | @snoc tr s a s' prior taken ih =>
    rcases List.eq_nil_or_concat after with rfl | ⟨rest,y,rfl⟩
    · obtain ⟨rfl,hx⟩ := List.append_inj' htr rfl
      cases hx
      exact ⟨s',prior,taken,refl⟩
    · rw [List.concat_eq_append,← List.cons_append,← List.append_assoc] at htr
      obtain ⟨hinit,hy⟩ := List.append_inj' htr rfl
      cases hy
      obtain ⟨t,hb,ht,ha⟩ := ih hinit
      rw [List.concat_eq_append]
      exact ⟨t,hb,ht,snoc ha taken⟩

/-- The state after the first steps of a run is reached by a run over them. -/
theorem take (h : Run step s₀ tr s) {i : ℕ} {t : σ} (ht : (tr.map Prod.fst ++ [s])[i]? = some t) :
    Run step s₀ (tr.take i) t := by
  by_cases hi : i < tr.length
  · rw [List.getElem?_append_left (by rwa [List.length_map]),List.getElem?_map,
      List.getElem?_eq_getElem hi] at ht
    cases ht
    rw [← List.take_append_drop i tr,List.drop_eq_getElem_cons hi] at h
    exact h.split_at.choose_spec.1
  · have hlen : i < (tr.map Prod.fst ++ [s]).length := (List.getElem?_eq_some_iff.mp ht).1
    rw [List.length_append,List.length_map,List.length_singleton] at hlen
    obtain rfl : i = tr.length := by omega
    rw [List.getElem?_append_right (Nat.le_of_eq (List.length_map _)),List.length_map,Nat.sub_self] at ht
    cases ht
    rw [List.take_length]
    exact h

/-- The same for the state of an entry of the trace. -/
theorem take_entry (h : Run step s₀ tr s) {i : ℕ} {x : σ × α} (hx : tr[i]? = some x) :
    Run step s₀ (tr.take i) x.1 := by
  apply h.take
  have hi : i < tr.length := (List.getElem?_eq_some_iff.mp hx).1
  rw [List.getElem?_append_left (by rwa [List.length_map]),List.getElem?_map,hx]
  rfl

/-- Every state of a run is reached by a run of its own, over the first part of the trace. -/
theorem reaches (h : Run step s₀ tr s) {t : σ} (ht : t ∈ tr.map Prod.fst ++ [s]) :
    ∃ before, before <+: tr ∧ Run step s₀ before t := by
  rcases List.mem_append.mp ht with ht | ht
  · obtain ⟨x,hx,rfl⟩ := List.mem_map.mp ht
    obtain ⟨before,after,u,rfl,hb,-,-⟩ := h.split hx
    exact ⟨before,List.prefix_append _ _,hb⟩
  · rw [List.mem_singleton.mp ht]
    exact ⟨tr,List.prefix_rfl,h⟩

/-- A run passes through the state it starts in. -/
theorem start_mem (h : Run step s₀ tr s) : s₀ ∈ tr.map Prod.fst ++ [s] := by
  induction h with
  | refl => simp
  | @snoc tr s a s' prior taken ih =>
    rw [List.map_append,List.append_assoc]
    rcases List.mem_append.mp ih with h | h
    · exact List.mem_append_left _ h
    · rw [List.mem_singleton.mp h]
      simp

/-- The step of an entry of the trace, and the state after it, which the run passes through. -/
theorem taken (h : Run step s₀ tr s) {x : σ × α} (hx : x ∈ tr) :
    ∃ t, step x.1 x.2 = some t ∧ t ∈ tr.map Prod.fst ++ [s] := by
  obtain ⟨before,after,t,rfl,-,ht,hafter⟩ := h.split hx
  have hmem := hafter.start_mem
  refine ⟨t,ht,?_⟩
  rw [List.map_append,List.append_assoc]
  exact List.mem_append_right _ (List.mem_cons_of_mem _ hmem)

/-- A transitive relation holds between all states of a run, earlier to later, when it holds over
each of its steps, and only then. -/
theorem pairwise_iff {R : σ → σ → Prop} (trans : ∀ {t u v}, R t u → R u v → R t v)
    (h : Run step s₀ tr s) : (tr.map Prod.fst ++ [s]).Pairwise R ↔
      ∀ x ∈ tr, ∀ t, step x.1 x.2 = some t → R x.1 t := by
  constructor
  · intro hpairs x hx t ht
    obtain ⟨before,after,u,rfl,-,hu,hafter⟩ := h.split hx
    rw [ht] at hu
    cases hu
    rw [List.map_append,List.append_assoc,List.map_cons] at hpairs
    have hlater := (List.pairwise_append.mp hpairs).2.1
    exact (List.pairwise_cons.mp hlater).1 t hafter.start_mem
  · intro hsteps
    induction h with
    | refl => simp
    | @snoc tr s a s' prior taken ih =>
      have hs : R s s' := hsteps (s,a) (by simp) s' taken
      have hprior := ih fun x hx => hsteps x (List.mem_append_left _ hx)
      rw [List.map_append]
      change (tr.map Prod.fst ++ [s] ++ [s']).Pairwise R
      refine List.pairwise_append.mpr ⟨hprior,List.pairwise_singleton _ _,?_⟩
      intro u hu v hv
      rw [List.mem_singleton.mp hv]
      rcases List.mem_append.mp hu with hu | hu
      · exact trans ((List.pairwise_append.mp hprior).2.2 u hu s (by simp)) hs
      · rw [List.mem_singleton.mp hu]
        exact hs

/-- A predicate that holds at the start and is kept by every step whose guard `C` holds is
true at the end of every run all of whose steps meet the guard. -/
theorem invariant_of_guard {P : σ → Prop} {C : σ → α → Prop} (init : P s₀)
    (keep : ∀ s a s', P s → C s a → step s a = some s' → P s')
    (h : Run step s₀ tr s) (guard : ∀ x ∈ tr, C x.1 x.2) : P s := by
  induction h with
  | refl => exact init
  | @snoc tr s a s' prior taken ih =>
    have hs : P s := ih (fun x hx => guard x (List.mem_append_left _ hx))
    exact keep s a s' hs (guard (s,a) (by simp)) taken

theorem invariant {P : σ → Prop} (init : P s₀)
    (keep : ∀ s a s', P s → step s a = some s' → P s') (h : Run step s₀ tr s) : P s :=
  invariant_of_guard (C := fun _ _ => True) init (fun s a s' hs _ => keep s a s' hs) h
    (fun _ _ => trivial)

/-- The same for a predicate of the trace so far and the state it leads to. -/
theorem history_invariant {P : List (σ × α) → σ → Prop} (init : P [] s₀)
    (keep : ∀ tr s a s', Run step s₀ tr s → P tr s → step s a = some s' →
      P (tr ++ [(s,a)]) s')
    (h : Run step s₀ tr s) : P tr s := by
  induction h with
  | refl => exact init
  | snoc prior taken ih => exact keep _ _ _ _ prior ih taken

end Run

theorem run_of_execute {as : List α} (h : execute step s₀ as = some (tr,s)) :
    Run step s₀ tr s := by
  induction as generalizing s₀ tr with
  | nil =>
    simp only [execute,Option.some.injEq,Prod.mk.injEq] at h
    obtain ⟨rfl,rfl⟩ := h
    exact Run.refl
  | cons a as ih =>
    simp only [execute,Option.bind_eq_some_iff,Option.map_eq_some_iff,Prod.mk.injEq] at h
    obtain ⟨t,ht,⟨rest,u⟩,hrest,rfl,rfl⟩ := h
    exact Run.cons ht (ih hrest)

/-- A test on the trace and the final state of an execution, as a run that passes it. -/
theorem exists_run_of_execute (step : σ → α → Option σ) (s₀ : σ) (as : List α) (test : List (σ × α) → σ → Bool)
    (h : (execute step s₀ as).any (fun r => test r.1 r.2) = true) :
    ∃ tr s, Run step s₀ tr s ∧ test tr s = true := by
  obtain ⟨⟨tr,s⟩,hr,ht⟩ := (Option.any_eq_true _ _).mp h
  exact ⟨tr,s,run_of_execute hr,ht⟩

end Concurrency
