import ProcessMessagePassing.Concurrency.Run

/-! Refinement of a step function by a labelled transition relation. A refinement map sends
each step to a finite path of the abstract system whose visible events are those the step
shows; a whole run is then sent to a path with the events of the run. -/
namespace Concurrency

variable {σ α τ ε : Type*}

/-- A finite path of a labelled transition relation, with its events in order. -/
inductive Steps (R : τ → ε → τ → Prop) (t₀ : τ) : List ε → τ → Prop
  | refl : Steps R t₀ [] t₀
  | snoc {es t e t'} (prior : Steps R t₀ es t) (taken : R t e t') : Steps R t₀ (es ++ [e]) t'

namespace Steps
variable {R : τ → ε → τ → Prop} {t₀ t t' t'' : τ} {es es' : List ε} {e e' : ε}

theorem one (h : R t e t') : Steps R t [e] t' := snoc refl h

theorem two (h : R t e t') (h' : R t' e' t'') : Steps R t [e,e'] t'' := snoc (one h) h'

theorem append (h : Steps R t₀ es t) (h' : Steps R t es' t') : Steps R t₀ (es ++ es') t' := by
  induction h' with
  | refl => simpa using h
  | snoc prior taken ih =>
    rw [← List.append_assoc]
    exact snoc ih taken

end Steps

/-- A step-by-step refinement that uses an invariant of the concrete system and a guard on its
steps carries over to runs whose steps all meet the guard. -/
theorem Run.refines {step : σ → α → Option σ} {R : τ → ε → τ → Prop} {s₀ s : σ}
    {tr : List (σ × α)} (abs : σ → τ) (observe : σ → α → List ε) (visible : ε → Bool)
    {I : σ → Prop} {C : σ → α → Prop} (init : I s₀)
    (keep : ∀ s a s', I s → C s a → step s a = some s' → I s')
    (sim : ∀ s a s', I s → C s a → step s a = some s' →
      ∃ es, Steps R (abs s) es (abs s') ∧ es.filter visible = observe s a)
    (h : Run step s₀ tr s) (guard : ∀ x ∈ tr, C x.1 x.2) :
    ∃ es, Steps R (abs s₀) es (abs s) ∧
      es.filter visible = tr.flatMap fun x => observe x.1 x.2 := by
  induction h with
  | refl => exact ⟨[],Steps.refl,rfl⟩
  | @snoc tr s a s' prior taken ih =>
    have hguard : ∀ x ∈ tr, C x.1 x.2 := fun x hx => guard x (List.mem_append_left _ hx)
    have hs : I s := prior.invariant_of_guard init keep hguard
    have ha : C s a := guard (s,a) (by simp)
    obtain ⟨es,hpath,hvis⟩ := ih hguard
    obtain ⟨fs,hstep,hobs⟩ := sim s a s' hs ha taken
    refine ⟨es ++ fs,hpath.append hstep,?_⟩
    rw [List.filter_append,hvis,hobs]
    simp

/-- A run goes through steps of another system, where every step is one of its steps or leaves what it
sees of the state. -/
theorem Run.simulates {β : Type*} {step : σ → α → Option σ} {step' : τ → β → Option τ} {s₀ s : σ}
    {tr : List (σ × α)} (abs : σ → τ) (act : σ → α → Option β) {I : σ → Prop} {C : σ → α → Prop}
    (init : I s₀) (keep : ∀ s a s', I s → C s a → step s a = some s' → I s')
    (visible : ∀ s a s' b, I s → C s a → step s a = some s' → act s a = some b →
      step' (abs s) b = some (abs s'))
    (silent : ∀ s a s', I s → C s a → step s a = some s' → act s a = none → abs s' = abs s)
    (h : Run step s₀ tr s) (guard : ∀ x ∈ tr, C x.1 x.2) :
    Run step' (abs s₀) (tr.filterMap fun x => (act x.1 x.2).map (Prod.mk (abs x.1))) (abs s) := by
  induction h with
  | refl => exact .refl
  | @snoc tr s a s' prior taken ih =>
    have hguard : ∀ x ∈ tr, C x.1 x.2 := fun x hx => guard x (List.mem_append_left _ hx)
    have hs : I s := prior.invariant_of_guard init keep hguard
    have ha : C s a := guard (s,a) (by simp)
    rw [List.filterMap_append]
    cases hact : act s a with
    | none =>
      rw [silent s a s' hs ha taken hact]
      simpa [hact] using ih hguard
    | some b =>
      simpa [hact] using (ih hguard).snoc (visible s a s' b hs ha taken hact)

end Concurrency
