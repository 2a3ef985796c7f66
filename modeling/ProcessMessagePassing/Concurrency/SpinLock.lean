import ProcessMessagePassing.Concurrency.Run
import Mathlib.Data.Set.Insert
import Mathlib.Order.BooleanAlgebra.Set
import Mathlib.Logic.Function.Basic
import Mathlib.Logic.Relation

/-! Threads over spin locks. The code of a thread is its lock operations, its sleeps and its branches;
a branch on data can go either way. A rank on the locks that every thread follows keeps all of them
out of deadlock. -/
namespace Concurrency.SpinLock

/-- What is left of a thread, over locks `L` and with the ways to sleep `ω`. -/
inductive Code (L ω : Type)
  | done
  | lock (l : L) (k : Code L ω)
  | unlock (l : L) (k : Code L ω)
  | sleep (w : ω) (k : Code L ω)
  | choice (k k' : Code L ω)
  | any (f : ℕ → Code L ω)
  | star (body k : Code L ω)

variable {ι L ω π : Type}

namespace Code

def append : Code L ω → Code L ω → Code L ω
  | done,c => c
  | lock l k,c => lock l (k.append c)
  | unlock l k,c => unlock l (k.append c)
  | sleep w k,c => sleep w (k.append c)
  | choice k k',c => choice (k.append c) (k'.append c)
  | any f,c => any fun n => (f n).append c
  | star body k,c => star body (k.append c)

/-- A wait on the queue that the lock protects: the sleeper releases this lock and takes it again. -/
def waitEvent (w : ω) (l : L) (k : Code L ω) : Code L ω :=
  star (unlock l (sleep w (lock l done))) k

/-- The code takes locks by rising rank, releases only what it holds, sleeps with no lock and turns
the locks `h` into `h'`. -/
def Checks (rank : L → ℕ) : Code L ω → Set L → Set L → Prop
  | done,h,h' => h = h'
  | lock l k,h,h' => (∀ x ∈ h, rank x < rank l) ∧ k.Checks rank (insert l h) h'
  | unlock l k,h,h' => l ∈ h ∧ k.Checks rank (h \ {l}) h'
  | sleep _ k,h,h' => h = ∅ ∧ k.Checks rank h h'
  | choice k k',h,h' => k.Checks rank h h' ∧ k'.Checks rank h h'
  | any f,h,h' => ∀ n, (f n).Checks rank h h'
  | star body k,h,h' => body.Checks rank h h ∧ k.Checks rank h h'

variable {rank : L → ℕ}

theorem Checks.append {a b : Code L ω} {h h₁ h' : Set L} (ha : a.Checks rank h h₁)
    (hb : b.Checks rank h₁ h') : (a.append b).Checks rank h h' := by
  induction a generalizing h with
  | done =>
    obtain rfl : h = h₁ := ha
    exact hb
  | lock l k ih => exact ⟨ha.1,ih ha.2⟩
  | unlock l k ih => exact ⟨ha.1,ih ha.2⟩
  | sleep w k ih => exact ⟨ha.1,ih ha.2⟩
  | choice k k' ih ih' => exact ⟨ih ha.1,ih' ha.2⟩
  | any f ih =>
    intro n
    exact ih n (ha n)
  | star body k ihBody ih => exact ⟨ha.1,ih ha.2⟩

/-- Going through a lock leaves the locks that were held. -/
theorem checks_section {l : L} {k : Code L ω} {h h' : Set L} (rises : ∀ x ∈ h, rank x < rank l)
    (hk : k.Checks rank h h') : (lock l (unlock l k)).Checks rank h h' := by
  have hne : l ∉ h := fun hmem => Nat.lt_irrefl _ (rises l hmem)
  refine ⟨rises,Set.mem_insert _ _,?_⟩
  rw [Set.insert_sdiff_self_of_notMem hne]
  exact hk

theorem checks_acquire {l : L} {k : Code L ω} {h' : Set L} (hk : k.Checks rank {l} h') :
    (lock l k).Checks rank ∅ h' := by
  refine ⟨fun x hx => absurd hx (Set.notMem_empty x),?_⟩
  rw [insert_empty_eq]
  exact hk

theorem checks_release {l : L} {k : Code L ω} {h' : Set L} (hk : k.Checks rank ∅ h') :
    (unlock l k).Checks rank {l} h' := by
  refine ⟨rfl,?_⟩
  rw [Set.sdiff_self]
  exact hk

/-- A wait is made with the lock of its queue and no other. -/
theorem checks_waitEvent {w : ω} {l : L} {k : Code L ω} {h' : Set L} (hk : k.Checks rank {l} h') :
    (waitEvent w l k).Checks rank {l} h' := by
  have hfree : ({l} : Set L) \ {l} = ∅ := Set.sdiff_self
  refine ⟨⟨rfl,hfree,?_,?_⟩,hk⟩
  · rw [hfree]
    simp
  · change insert l (({l} : Set L) \ {l}) = {l}
    rw [hfree]
    simp

/-- The code can come to this point by its branches alone. -/
inductive Leads : Code L ω → Code L ω → Prop
  | refl {c} : Leads c c
  | left {k k' c} (h : Leads k c) : Leads (choice k k') c
  | right {k k' c} (h : Leads k' c) : Leads (choice k k') c
  | any {f c} (n : ℕ) (h : Leads (f n) c) : Leads (any f) c
  | exit {body k c} (h : Leads k c) : Leads (star body k) c
  | again {body k c} (h : Leads (body.append (star body k)) c) : Leads (star body k) c

/-- The code can come to this point by its branches, its sleeps and sections under the locks `free`. -/
inductive Passes (free : Set L) : Code L ω → Code L ω → Prop
  | leads {a b} (h : a.Leads b) : Passes free a b
  | sleep {a w k c} (h : a.Leads (.sleep w k)) (hk : k.Passes free c) : Passes free a c
  | critical {a l b k c} (h : a.Leads (.lock l b)) (hl : l ∈ free) (hb : b.Leads (.unlock l k))
      (hk : k.Passes free c) : Passes free a c

end Code

structure State (ι L ω : Type) where
  code : ι → Code L ω
  owner : L → Option ι

/-- A thread that is done starts one of the programs `π`, or a thread takes its next step; the number
says where a branch goes. -/
inductive Action (ι π : Type)
  | start (i : ι) (c : π)
  | run (i : ι) (n : ℕ)
  deriving DecidableEq, Repr

namespace State

def initial : State ι L ω := ⟨fun _ => .done,fun _ => none⟩

def held (t : State ι L ω) (i : ι) : Set L := {l | t.owner l = some i}

/-- The thread spins for a lock that the other one holds. -/
def Spins (t : State ι L ω) (i j : ι) : Prop := ∃ l k, t.code i = .lock l k ∧ t.owner l = some j

/-- Nobody goes for a lock that he holds, sleeps with a lock or keeps one when he is done, and the
threads that spin for one another's locks form no cycle. -/
structure Safe (t : State ι L ω) : Prop where
  reacquire : ∀ i l k, t.code i = .lock l k → t.owner l ≠ some i
  asleep : ∀ i w k, t.code i = .sleep w k → ∀ l, t.owner l ≠ some i
  returned : ∀ i, t.code i = .done → ∀ l, t.owner l ≠ some i
  acyclic : ∀ i, ¬ Relation.TransGen t.Spins i i

variable [DecidableEq ι] [DecidableEq L]

def setCode (t : State ι L ω) (i : ι) (c : Code L ω) : State ι L ω :=
  { t with code := Function.update t.code i c }

def setOwner (t : State ι L ω) (l : L) (o : Option ι) : State ι L ω :=
  { t with owner := Function.update t.owner l o }

def step (programs : π → Code L ω) (t : State ι L ω) : Action ι π → Option (State ι L ω)
  | .start i c =>
    match t.code i with
    | .done => some (t.setCode i (programs c))
    | _ => none
  | .run i n =>
    match t.code i with
    | .done => none
    | .lock l k => if t.owner l = none then some ((t.setCode i k).setOwner l (some i)) else none
    | .unlock l k => some ((t.setCode i k).setOwner l none)
    | .sleep _ k => some (t.setCode i k)
    | .choice k k' => some (t.setCode i (if n = 0 then k else k'))
    | .any f => some (t.setCode i (f n))
    | .star body k => some (t.setCode i (if n = 0 then k else body.append (.star body k)))

section Runs
variable {programs : π → Code L ω} {t : State ι L ω} {i : ι}

omit [DecidableEq L] in
@[simp] lemma setCode_self (t : State ι L ω) (i : ι) (c : Code L ω) : (t.setCode i c).code i = c :=
  Function.update_self _ _ _

omit [DecidableEq L] in
@[simp] lemma setCode_setCode (t : State ι L ω) (i : ι) (c d : Code L ω) :
    (t.setCode i c).setCode i d = t.setCode i d :=
  congrArg (fun f => State.mk f t.owner) (Function.update_idem _ _ _)

omit [DecidableEq L] in
lemma setCode_eq {c : Code L ω} (h : t.code i = c) : t.setCode i c = t := by
  subst c
  exact congrArg (fun f => State.mk f t.owner) (Function.update_eq_self _ _)

/-- A thread can take any of its branches. -/
theorem run_leads {a b : Code L ω} (h : a.Leads b) (ha : t.code i = a) :
    ∃ tr, Run (step programs) t tr (t.setCode i b) := by
  induction h generalizing t with
  | refl =>
    rw [setCode_eq ha]
    exact ⟨[],.refl⟩
  | @left k k' c hk ih =>
    have hstep : step programs t (.run i 0) = some (t.setCode i k) := by simp [step,ha]
    obtain ⟨tr,hrun⟩ := ih (setCode_self t i k)
    rw [setCode_setCode] at hrun
    exact ⟨_,.cons hstep hrun⟩
  | @right k k' c hk ih =>
    have hstep : step programs t (.run i 1) = some (t.setCode i k') := by simp [step,ha]
    obtain ⟨tr,hrun⟩ := ih (setCode_self t i k')
    rw [setCode_setCode] at hrun
    exact ⟨_,.cons hstep hrun⟩
  | @any f c n hn ih =>
    have hstep : step programs t (.run i n) = some (t.setCode i (f n)) := by simp [step,ha]
    obtain ⟨tr,hrun⟩ := ih (setCode_self t i (f n))
    rw [setCode_setCode] at hrun
    exact ⟨_,.cons hstep hrun⟩
  | @exit body k c hk ih =>
    have hstep : step programs t (.run i 0) = some (t.setCode i k) := by simp [step,ha]
    obtain ⟨tr,hrun⟩ := ih (setCode_self t i k)
    rw [setCode_setCode] at hrun
    exact ⟨_,.cons hstep hrun⟩
  | @again body k c hk ih =>
    have hstep : step programs t (.run i 1) = some (t.setCode i (body.append (.star body k))) := by
      simp [step,ha]
    obtain ⟨tr,hrun⟩ := ih (setCode_self t i _)
    rw [setCode_setCode] at hrun
    exact ⟨_,.cons hstep hrun⟩

lemma step_lock {l : L} {k : Code L ω} (ha : t.code i = .lock l k) (free : t.owner l = none) :
    step programs t (.run i 0) = some ((t.setCode i k).setOwner l (some i)) := by
  simp [step,ha,free]

lemma step_unlock {l : L} {k : Code L ω} (ha : t.code i = .unlock l k) :
    step programs t (.run i 0) = some ((t.setCode i k).setOwner l none) := by
  simp [step,ha]

lemma step_sleep {w : ω} {k : Code L ω} (ha : t.code i = .sleep w k) :
    step programs t (.run i 0) = some (t.setCode i k) := by
  simp [step,ha]

lemma release_eq {l : L} (free : t.owner l = none) (b c k : Code L ω) :
    ((((t.setCode i b).setOwner l (some i)).setCode i c).setCode i k).setOwner l none =
      t.setCode i k := by
  have howner : Function.update (Function.update t.owner l (some i)) l none = t.owner := by
    rw [Function.update_idem,Function.update_eq_self_iff]
    exact free.symm
  have hcode : Function.update (Function.update (Function.update t.code i b) i c) i k =
      Function.update t.code i k := by
    rw [Function.update_idem,Function.update_idem]
  exact congrArg₂ State.mk hcode howner

/-- A thread can go through a free lock. -/
theorem run_section {l : L} {b k : Code L ω} (ha : t.code i = .lock l b) (free : t.owner l = none)
    (hb : b.Leads (.unlock l k)) : ∃ tr, Run (step programs) t tr (t.setCode i k) := by
  have hlock : step programs t (.run i 0) = _ := step_lock ha free
  have hcode : ((t.setCode i b).setOwner l (some i)).code i = b := setCode_self t i b
  obtain ⟨tr,hrun⟩ : ∃ tr, Run (step programs) ((t.setCode i b).setOwner l (some i)) tr
      (((t.setCode i b).setOwner l (some i)).setCode i (.unlock l k)) := run_leads hb hcode
  have hunlock : step programs (((t.setCode i b).setOwner l (some i)).setCode i (.unlock l k))
      (.run i 0) = _ := step_unlock (setCode_self _ _ _)
  rw [release_eq free] at hunlock
  exact ⟨_,.cons hlock (hrun.snoc hunlock)⟩

/-- A thread passes the locks that are free. -/
theorem run_passes {free : Set L} {a b : Code L ω} (h : a.Passes free b) (ha : t.code i = a)
    (hfree : ∀ l ∈ free, t.owner l = none) : ∃ tr, Run (step programs) t tr (t.setCode i b) := by
  induction h generalizing t with
  | leads h => exact run_leads h ha
  | @sleep a w k c h hk ih =>
    obtain ⟨tr,hto⟩ : ∃ tr, Run (step programs) t tr (t.setCode i (.sleep w k)) := run_leads h ha
    have hsleep : step programs (t.setCode i (.sleep w k)) (.run i 0) = _ :=
      step_sleep (setCode_self t i _)
    rw [setCode_setCode] at hsleep
    obtain ⟨tr',hrest⟩ := ih (setCode_self t i k) hfree
    rw [setCode_setCode] at hrest
    exact ⟨_,(hto.snoc hsleep).append hrest⟩
  | @critical a l b k c h hl hb hk ih =>
    obtain ⟨tr,hto⟩ : ∃ tr, Run (step programs) t tr (t.setCode i (.lock l b)) := run_leads h ha
    obtain ⟨tr',hsection⟩ : ∃ tr, Run (step programs) (t.setCode i (.lock l b)) tr
        ((t.setCode i (.lock l b)).setCode i k) := run_section (setCode_self t i _) (hfree l hl) hb
    rw [setCode_setCode] at hsection
    obtain ⟨tr'',hrest⟩ := ih (setCode_self t i k) hfree
    rw [setCode_setCode] at hrest
    exact ⟨_,(hto.append hsection).append hrest⟩

end Runs

/-- What is left of every thread is in order with the locks that it holds. -/
def Checked (rank : L → ℕ) (t : State ι L ω) : Prop := ∀ i, (t.code i).Checks rank (t.held i) ∅

variable {rank : L → ℕ} {programs : π → Code L ω} {t t' : State ι L ω} {act : Action ι π} {i j : ι}
  {tr : List (State ι L ω × Action ι π)}

omit [DecidableEq ι] [DecidableEq L] in
lemma checked_initial : Checked rank (initial : State ι L ω) := by
  intro i
  change {l : L | none = some i} = ∅
  ext l
  simp

omit [DecidableEq L] in
lemma Checked.setCode (h : t.Checked rank) {c : Code L ω} (hc : c.Checks rank (t.held i) ∅) :
    (t.setCode i c).Checked rank := by
  intro j
  change (Function.update t.code i c j).Checks rank (t.held j) ∅
  by_cases hj : j = i
  · subst j
    rw [Function.update_self]
    exact hc
  · rw [Function.update_of_ne hj]
    exact h j

/-- A lock changes hands between nobody and this thread. -/
lemma Checked.setOwner (h : t.Checked rank) {l : L} {o : Option ι} {c : Code L ω}
    (before : t.owner l = none ∨ t.owner l = some i) (after : o = none ∨ o = some i)
    (hc : c.Checks rank {x | Function.update t.owner l o x = some i} ∅) :
    ((t.setCode i c).setOwner l o).Checked rank := by
  intro j
  change (Function.update t.code i c j).Checks rank {x | Function.update t.owner l o x = some j} ∅
  by_cases hj : j = i
  · subst j
    rw [Function.update_self]
    exact hc
  · have hheld : {x | Function.update t.owner l o x = some j} = t.held j := by
      ext x
      by_cases hx : x = l
      · subst x
        have hne : some i ≠ some j := fun he => hj (Option.some.inj he).symm
        constructor
        · intro hmem
          change Function.update t.owner l o l = some j at hmem
          rw [Function.update_self] at hmem
          rcases after with rfl | rfl
          · cases hmem
          · exact absurd hmem hne
        · intro hmem
          change t.owner l = some j at hmem
          rcases before with hb | hb
          · rw [hb] at hmem
            cases hmem
          · rw [hb] at hmem
            exact absurd hmem hne
      · change Function.update t.owner l o x = some j ↔ t.owner x = some j
        rw [Function.update_of_ne hx]
    rw [Function.update_of_ne hj,hheld]
    exact h j

theorem Checked.step (ordered : ∀ c, (programs c).Checks rank ∅ ∅) (h : t.Checked rank)
    (taken : t.step programs act = some t') : t'.Checked rank := by
  cases act with
  | start i c =>
    simp only [State.step] at taken
    split at taken
    · next hdone =>
      cases taken
      have hi := h i
      rw [hdone] at hi
      have hheld : t.held i = ∅ := hi
      apply h.setCode
      rw [hheld]
      exact ordered c
    · cases taken
  | run i n =>
    have hi := h i
    simp only [State.step] at taken
    cases hc : t.code i with
    | done =>
      rw [hc] at taken
      cases taken
    | lock l k =>
      rw [hc] at hi taken
      simp only at taken
      split_ifs at taken with hfree
      cases taken
      refine h.setOwner (.inl hfree) (.inr rfl) ?_
      have hheld : {x | Function.update t.owner l (some i) x = some i} = insert l (t.held i) := by
        ext x
        by_cases hx : x = l
        · simp [hx]
        · simp [hx,held]
      rw [hheld]
      exact hi.2
    | unlock l k =>
      rw [hc] at hi taken
      cases taken
      refine h.setOwner (.inr hi.1) (.inl rfl) ?_
      have hheld : {x | Function.update t.owner l none x = some i} = t.held i \ {l} := by
        ext x
        by_cases hx : x = l
        · simp [hx]
        · simp [hx,held]
      rw [hheld]
      exact hi.2
    | sleep w k =>
      rw [hc] at hi taken
      cases taken
      exact h.setCode hi.2
    | choice k k' =>
      rw [hc] at hi taken
      cases taken
      apply h.setCode
      split_ifs
      · exact hi.1
      · exact hi.2
    | any f =>
      rw [hc] at hi taken
      cases taken
      exact h.setCode (hi n)
    | star body k =>
      rw [hc] at hi taken
      cases taken
      apply h.setCode
      split_ifs
      · exact hi.2
      · exact hi.1.append hi

theorem checked_of_run (ordered : ∀ c, (programs c).Checks rank ∅ ∅)
    (h : Run (State.step programs) initial tr t) : t.Checked rank :=
  Run.invariant checked_initial (fun _ _ _ h taken => h.step ordered taken) h

omit [DecidableEq ι] [DecidableEq L] in
/-- Whoever goes for a lock holds only locks of lower rank. -/
lemma Checked.lt_of_held (h : t.Checked rank) {l l' : L} {k : Code L ω} (hc : t.code i = .lock l' k)
    (howner : t.owner l = some i) : rank l < rank l' := by
  have hi := h i
  rw [hc] at hi
  exact hi.1 l howner

omit [DecidableEq ι] [DecidableEq L] in
/-- Along a chain of spinning threads the ranks of the locks rise. -/
lemma Checked.rank_lt (h : t.Checked rank) (chain : Relation.TransGen t.Spins i j) {l l' : L}
    {k k' : Code L ω} (hi : t.code i = .lock l k) (hj : t.code j = .lock l' k') : rank l < rank l' := by
  induction chain generalizing l' k' with
  | single spins =>
    obtain ⟨l₀,k₀,hc,howner⟩ := spins
    rw [hi] at hc
    cases hc
    exact h.lt_of_held hj howner
  | tail _ spins ih =>
    obtain ⟨l₀,k₀,hc,howner⟩ := spins
    exact (ih hc).trans (h.lt_of_held hj howner)

omit [DecidableEq ι] [DecidableEq L] in
/-- Threads whose code is in order are safe. -/
theorem Checked.safe (h : t.Checked rank) : t.Safe where
  reacquire i l k hc howner := Nat.lt_irrefl _ (h.lt_of_held hc howner)
  asleep i w k hc l howner := by
    have hi := h i
    rw [hc] at hi
    have hmem : l ∈ t.held i := howner
    rw [hi.1] at hmem
    exact hmem
  returned i hc l howner := by
    have hi := h i
    rw [hc] at hi
    have hheld : t.held i = ∅ := hi
    have hmem : l ∈ t.held i := howner
    rw [hheld] at hmem
    exact hmem
  acyclic i cycle := by
    obtain ⟨j,⟨l,k,hc,-⟩,-⟩ := Relation.TransGen.head'_iff.mp cycle
    exact Nat.lt_irrefl _ (h.rank_lt cycle hc hc)

end State
end Concurrency.SpinLock
