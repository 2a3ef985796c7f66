import Mathlib.Data.List.Nodup
import Mathlib.Logic.Function.Basic

/-! A queue whose clients may put back at the front what they took from it. First in, first out
then depends on when they put it back. -/
namespace Concurrency.PutBack

variable {ι μ : Type*}

/-- The first comes before the second in the list. -/
def Before (l : List μ) (x y : μ) : Prop := [x,y].Sublist l

instance [DecidableEq μ] (l : List μ) (x y : μ) : Decidable (Before l x y) :=
  inferInstanceAs (Decidable (List.Sublist _ _))

section Lists
variable {l l' a b : List μ} {x y : μ}

lemma Before.sublist (h : Before l x y) (hl : l.Sublist l') : Before l' x y := List.Sublist.trans h hl

/-- Among distinct entries only one of two comes before the other. -/
lemma Before.asymm (nodup : l.Nodup) (h : Before l x y) : ¬ Before l y x := by
  induction l with
  | nil =>
    intro h'
    cases h'
  | cons z l ih =>
    obtain ⟨hz,hl⟩ := List.nodup_cons.mp nodup
    intro h'
    cases h with
    | cons _ h =>
      cases h' with
      | cons _ h' => exact ih hl h h'
      | cons_cons _ h' => exact hz (h.subset (by simp))
    | cons_cons _ h =>
      cases h' with
      | cons _ h' => exact hz (h'.subset (by simp))
      | cons_cons _ h' => exact hz (h.subset (by simp))

lemma before_of_split (x : μ) (hy : y ∈ b) : Before (a ++ x :: b) x y :=
  List.Sublist.trans (List.Sublist.cons_cons x (List.singleton_sublist.mpr hy)) (List.sublist_append_right a _)

lemma before_of_split' (hy : y ∈ a) (x : μ) : Before (a ++ x :: b) y x := by
  have h : ([y] ++ [x]).Sublist (a ++ x :: b) :=
    List.Sublist.append (List.singleton_sublist.mpr hy) (List.singleton_sublist.mpr (by simp))
  exact h

/-- A part of a list that avoids its end is a part of the beginning. -/
lemma sublist_left (h : l.Sublist (a ++ b)) (avoids : ∀ y ∈ l, y ∉ b) : l.Sublist a := by
  obtain ⟨l₁,l₂,rfl,h₁,h₂⟩ := List.sublist_append_iff.mp h
  have hnil : l₂ = [] := by
    apply List.eq_nil_iff_forall_not_mem.mpr
    intro y hy
    exact avoids y (List.mem_append_right _ hy) (h₂.subset hy)
  rw [hnil,List.append_nil]
  exact h₁

lemma sublist_right (h : l.Sublist (a ++ b)) (avoids : ∀ y ∈ l, y ∉ a) : l.Sublist b := by
  obtain ⟨l₁,l₂,rfl,h₁,h₂⟩ := List.sublist_append_iff.mp h
  have hnil : l₁ = [] := by
    apply List.eq_nil_iff_forall_not_mem.mpr
    intro y hy
    exact avoids y (List.mem_append_left _ hy) (h₁.subset hy)
  rw [hnil]
  exact h₂

/-- An entry goes between two parts of a list when nothing in them is on its wrong side. -/
lemma sublist_insert (hl : l.Sublist a) (hl' : l'.Sublist a) (mem : x ∈ a) (new : x ∉ l ++ l')
    (left : ∀ y ∈ l, ¬ Before a x y) (right : ∀ y ∈ l', ¬ Before a y x) :
    (l ++ x :: l').Sublist a := by
  obtain ⟨a₁,a₂,rfl⟩ := List.mem_iff_append.mp mem
  rw [List.mem_append,not_or] at new
  have h₁ : l.Sublist a₁ := by
    refine sublist_left hl fun y hy hmem => ?_
    rcases List.mem_cons.mp hmem with rfl | hmem
    · exact new.1 hy
    · exact left y hy (before_of_split x hmem)
  have h₂ : l'.Sublist a₂ := by
    have hsplit : l'.Sublist ((a₁ ++ [x]) ++ a₂) := by simpa using hl'
    refine sublist_right hsplit fun y hy hmem => ?_
    rcases List.mem_append.mp hmem with hmem | hmem
    · exact right y hy (before_of_split' hmem x)
    · rw [List.mem_singleton] at hmem
      exact new.2 (hmem ▸ hy)
  exact List.Sublist.append h₁ (List.Sublist.cons_cons x h₂)

end Lists

/-- What was accepted and what was delivered so far, in their order, what is queued, and what
the clients hold that may come back. -/
@[ext] structure State (ι μ : Type*) where
  accepted : List μ
  delivered : List μ
  queue : List μ
  held : ι → Option μ

/-- Nothing in the queue was accepted before the entry, and nothing delivered after it. -/
def State.InOrder (t : State ι μ) (x : μ) : Prop :=
  (∀ y ∈ t.queue, ¬ Before t.accepted y x) ∧ ∀ y ∈ t.delivered, ¬ Before t.accepted x y

variable [DecidableEq ι]

inductive Step (mayPutBack : State ι μ → μ → Prop) (t : State ι μ) : State ι μ → Prop
  | accept {x} (new : x ∉ t.accepted) :
      Step mayPutBack t { t with accepted := t.accepted ++ [x], queue := t.queue ++ [x] }
  | deliver {x rest} (front : t.queue = x :: rest) :
      Step mayPutBack t { t with delivered := t.delivered ++ [x], queue := rest }
  | take {i x rest} (front : t.queue = x :: rest) :
      Step mayPutBack t { t with queue := rest, held := Function.update t.held i (some x) }
  | putBack {i x} (holds : t.held i = some x) (may : mayPutBack t x) :
      Step mayPutBack t { t with queue := x :: t.queue, held := Function.update t.held i none }
  | lose {i} : Step mayPutBack t { t with held := Function.update t.held i none }

/-- What was delivered and then what is queued is in the order of acceptance. -/
structure Ordered (t : State ι μ) : Prop where
  nodup : t.accepted.Nodup
  sublist : (t.delivered ++ t.queue).Sublist t.accepted
  held_mem : ∀ {i x}, t.held i = some x → x ∈ t.accepted
  held_new : ∀ {i x}, t.held i = some x → x ∉ t.delivered ++ t.queue
  held_unique : ∀ {i j x}, t.held i = some x → t.held j = some x → i = j

variable {mayPutBack : State ι μ → μ → Prop} {t t' : State ι μ}

omit [DecidableEq ι] in
theorem Ordered.nodup_both (h : Ordered t) : (t.delivered ++ t.queue).Nodup :=
  h.sublist.nodup h.nodup

lemma held_of_update {i j : ι} {x y : μ} (h : Function.update t.held i (some x) j = some y) :
    (j = i ∧ x = y) ∨ (j ≠ i ∧ t.held j = some y) := by
  by_cases hj : j = i
  · subst j
    rw [Function.update_self] at h
    exact .inl ⟨rfl,Option.some.inj h⟩
  · rw [Function.update_of_ne hj] at h
    exact .inr ⟨hj,h⟩

lemma held_of_update_none {i j : ι} {y : μ} (h : Function.update t.held i none j = some y) :
    j ≠ i ∧ t.held j = some y := by
  by_cases hj : j = i
  · subst j
    rw [Function.update_self] at h
    cases h
  · rw [Function.update_of_ne hj] at h
    exact ⟨hj,h⟩

/-- Entries stay in order as long as they are put back in order. -/
theorem Ordered.step (h : Ordered t) (hs : Step State.InOrder t t') : Ordered t' := by
  cases hs with
  | @accept x new =>
    refine ⟨?_,?_,fun hi => List.mem_append_left _ (h.held_mem hi),?_,h.held_unique⟩
    · exact List.nodup_append.mpr ⟨h.nodup,List.nodup_singleton x,by
        intro y hy z hz
        rw [List.mem_singleton.mp hz]
        exact fun he => new (he ▸ hy)⟩
    · change (t.delivered ++ (t.queue ++ [x])).Sublist (t.accepted ++ [x])
      rw [← List.append_assoc]
      exact List.Sublist.append_right h.sublist [x]
    · intro i y hi hy
      change y ∈ t.delivered ++ (t.queue ++ [x]) at hy
      rw [← List.append_assoc] at hy
      rcases List.mem_append.mp hy with hy | hy
      · exact h.held_new hi hy
      · rw [List.mem_singleton] at hy
        exact new (hy ▸ h.held_mem hi)
  | @deliver x rest front =>
    have hsame : (t.delivered ++ [x]) ++ rest = t.delivered ++ t.queue := by
      rw [front,List.append_assoc,List.singleton_append]
    refine ⟨h.nodup,?_,h.held_mem,?_,h.held_unique⟩
    · change ((t.delivered ++ [x]) ++ rest).Sublist t.accepted
      exact hsame ▸ h.sublist
    · intro i y hi
      change y ∉ (t.delivered ++ [x]) ++ rest
      exact hsame ▸ h.held_new hi
  | @take i x rest front =>
    have hboth := h.nodup_both
    have hx : x ∈ t.accepted := h.sublist.subset (by simp [front])
    have hrest : (t.delivered ++ rest).Sublist (t.delivered ++ t.queue) := by
      rw [front]
      exact List.Sublist.append_left (List.sublist_cons_self x rest) _
    have hnew : x ∉ t.delivered ++ rest := by
      rw [front] at hboth
      exact (List.nodup_middle.mp hboth).notMem
    refine ⟨h.nodup,hrest.trans h.sublist,?_,?_,?_⟩
    · intro j y hj
      rcases held_of_update hj with ⟨-,rfl⟩ | ⟨-,hj⟩
      · exact hx
      · exact h.held_mem hj
    · intro j y hj
      rcases held_of_update hj with ⟨-,rfl⟩ | ⟨-,hj⟩
      · exact hnew
      · exact fun hy => h.held_new hj (hrest.subset hy)
    · -- what was in the queue was held by nobody
      have hqueued : ∀ j, t.held j ≠ some x := fun j hj => h.held_new hj (by simp [front])
      intro j k y hj hk
      rcases held_of_update hj with ⟨rfl,rfl⟩ | ⟨-,hj⟩
      · rcases held_of_update hk with ⟨rfl,-⟩ | ⟨-,hk⟩
        · rfl
        · exact absurd hk (hqueued k)
      · rcases held_of_update hk with ⟨-,rfl⟩ | ⟨-,hk⟩
        · exact absurd hj (hqueued j)
        · exact h.held_unique hj hk
  | @putBack i x holds may =>
    have hleft := (List.sublist_append_left t.delivered t.queue).trans h.sublist
    have hright := (List.sublist_append_right t.delivered t.queue).trans h.sublist
    refine ⟨h.nodup,sublist_insert hleft hright (h.held_mem holds) (h.held_new holds) may.2 may.1,
      ?_,?_,?_⟩
    · intro j y hj
      exact h.held_mem (held_of_update_none hj).2
    · intro j y hj hy
      obtain ⟨hji,hold⟩ := held_of_update_none hj
      rcases List.mem_append.mp hy with hy | hy
      · exact h.held_new hold (List.mem_append_left _ hy)
      · rcases List.mem_cons.mp hy with rfl | hy
        · exact hji (h.held_unique hold holds)
        · exact h.held_new hold (List.mem_append_right _ hy)
    · intro j k y hj hk
      exact h.held_unique (held_of_update_none hj).2 (held_of_update_none hk).2
  | lose =>
    refine ⟨h.nodup,h.sublist,?_,?_,?_⟩
    · intro j y hj
      exact h.held_mem (held_of_update_none hj).2
    · intro j y hj
      exact h.held_new (held_of_update_none hj).2
    · intro j k y hj hk
      exact h.held_unique (held_of_update_none hj).2 (held_of_update_none hk).2

omit [DecidableEq ι] in
/-- An entry that is put back out of order is in the wrong place at once. -/
theorem not_ordered_of_putBack {x : μ} (outOfOrder : ¬ t.InOrder x) (i : ι → Option μ) :
    ¬ Ordered { t with queue := x :: t.queue, held := i } := by
  intro h
  apply outOfOrder
  have hsub : (t.delivered ++ x :: t.queue).Sublist t.accepted := h.sublist
  constructor
  · intro y hy hbefore
    exact hbefore.asymm h.nodup (Before.sublist (before_of_split x hy) hsub)
  · intro y hy hbefore
    exact hbefore.asymm h.nodup (Before.sublist (before_of_split' hy x) hsub)

omit [DecidableEq ι] in
/-- In order, nothing is delivered or queued ahead of what was accepted before it. -/
theorem Ordered.not_before (h : Ordered t) {x y : μ} (hxy : Before t.accepted x y) :
    ¬ Before (t.delivered ++ t.queue) y x := fun hyx =>
  hxy.asymm h.nodup (hyx.sublist h.sublist)

end Concurrency.PutBack
