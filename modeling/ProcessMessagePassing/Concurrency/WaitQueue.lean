import Mathlib.Data.List.Basic
import Mathlib.Data.List.Nodup
import Mathlib.Logic.Function.Iterate
import Mathlib.Order.Basic
import Mathlib.Data.Nat.Basic
import Mathlib.Tactic.Common

/-! Kernel wait queues. A queue is the list of its entries from the head on, each with its
exclusive flag. Waking the queue takes entries off its head up to and including the first
exclusive one, and waiting for an event is a loop round a condition that is read under the
lock of the queue. -/
namespace Concurrency.WaitQueue

variable {α : Type*}

/-- A wait queue entry: the sleeper and whether it waits exclusively. -/
structure Waiter (α : Type*) where
  task : α
  exclusive : Bool
  deriving DecidableEq, Repr

/-- The sleepers that have an entry in the queue. -/
def tasks (q : List (Waiter α)) : List α := q.map Waiter.task

@[simp] theorem tasks_nil : tasks ([] : List (Waiter α)) = [] := rfl

@[simp] theorem tasks_cons (w : Waiter α) (q : List (Waiter α)) :
    tasks (w :: q) = w.task :: tasks q := rfl

@[simp] theorem tasks_append (q r : List (Waiter α)) : tasks (q ++ r) = tasks q ++ tasks r :=
  List.map_append

/-- `wake_up_locked`: what is left of the queue. -/
def wakeUp : List (Waiter α) → List (Waiter α)
  | [] => []
  | w :: q => if w.exclusive then q else wakeUp q

/-- `__remove_wait_queue` of the entry of a sleeper, a no-op if it is off the queue. -/
def dequeue [DecidableEq α] (a : α) (q : List (Waiter α)) : List (Waiter α) :=
  q.filter fun w => w.task ≠ a

/-- `__add_wait_queue_tail`, unless the entry is still on the queue. -/
def enqueue [DecidableEq α] (w : Waiter α) (q : List (Waiter α)) : List (Waiter α) :=
  if w.task ∈ tasks q then q else q ++ [w]

/-- How one turn of the wait loop ends. -/
inductive Turn
  | ready
  | interrupted
  | asleep
  deriving DecidableEq, Repr

/-- One turn of the interruptible wait loop, with the lock of the queue held: the condition
is read first, then the entry is put on the queue and pending signals are looked at. -/
def waitEvent [DecidableEq α] (condition signalPending : Bool) (w : Waiter α)
    (q : List (Waiter α)) : Turn × List (Waiter α) :=
  if condition then (.ready,dequeue w.task q)
  else if signalPending then (.interrupted,dequeue w.task q)
  else (.asleep,enqueue w q)

theorem wakeUp_suffix (q : List (Waiter α)) : wakeUp q <:+ q := by
  induction q with
  | nil => exact List.suffix_refl []
  | cons w q ih =>
    simp only [wakeUp]
    split_ifs
    · exact List.suffix_cons w q
    · exact ih.trans (List.suffix_cons w q)

theorem wakeUp_sublist (q : List (Waiter α)) : (wakeUp q).Sublist q :=
  (wakeUp_suffix q).sublist

theorem notMem_tasks_wakeUp {a : α} {q : List (Waiter α)} (h : a ∉ tasks q) :
    a ∉ tasks (wakeUp q) := fun hm => h (((wakeUp_sublist q).map _).subset hm)

/-- Without an exclusive entry the whole queue is woken. -/
theorem wakeUp_eq_nil {q : List (Waiter α)} (h : ∀ w ∈ q, w.exclusive = false) :
    wakeUp q = [] := by
  induction q with
  | nil => rfl
  | cons w q ih =>
    have hw := h w (by simp)
    simp only [wakeUp,hw,Bool.false_eq_true,if_false]
    exact ih fun v hv => h v (by simp [hv])

/-- A queue with an exclusive entry loses one of them. -/
theorem exists_exclusive_woken {q : List (Waiter α)} (nodup : (tasks q).Nodup)
    {w : Waiter α} (hw : w ∈ q) (he : w.exclusive = true) :
    ∃ v ∈ q, v.exclusive = true ∧ v.task ∉ tasks (wakeUp q) := by
  induction q with
  | nil => simp at hw
  | cons u q ih =>
    have hu : u.task ∉ tasks q := (List.nodup_cons.mp nodup).1
    by_cases hx : u.exclusive = true
    · refine ⟨u,by simp,hx,?_⟩
      simpa only [wakeUp,hx,if_true] using hu
    · have hwq : w ∈ q := by
        rcases List.mem_cons.mp hw with rfl | hw
        · exact absurd he hx
        · exact hw
      obtain ⟨v,hv,hve,hvw⟩ := ih (List.nodup_cons.mp nodup).2 hwq
      refine ⟨v,by simp [hv],hve,?_⟩
      rw [wakeUp,if_neg hx]
      exact hvw

variable [DecidableEq α]

@[simp] theorem mem_dequeue {a : α} {q : List (Waiter α)} {w : Waiter α} :
    w ∈ dequeue a q ↔ w ∈ q ∧ w.task ≠ a := by simp [dequeue]

@[simp] theorem mem_tasks_dequeue {a b : α} {q : List (Waiter α)} :
    b ∈ tasks (dequeue a q) ↔ b ∈ tasks q ∧ b ≠ a := by
  simp only [tasks,List.mem_map,mem_dequeue]
  constructor
  · rintro ⟨w,⟨hw,hne⟩,rfl⟩; exact ⟨⟨w,hw,rfl⟩,hne⟩
  · rintro ⟨⟨w,hw,rfl⟩,hne⟩; exact ⟨w,⟨hw,hne⟩,rfl⟩

theorem dequeue_sublist (a : α) (q : List (Waiter α)) : (dequeue a q).Sublist q :=
  List.filter_sublist

theorem notMem_tasks_dequeue (a : α) (q : List (Waiter α)) : a ∉ tasks (dequeue a q) := by simp

theorem mem_enqueue {w v : Waiter α} {q : List (Waiter α)} (h : v ∈ enqueue w q) :
    v ∈ q ∨ v = w := by
  unfold enqueue at h
  split_ifs at h
  · exact .inl h
  · simpa using h

@[simp] theorem mem_tasks_enqueue {w : Waiter α} {b : α} {q : List (Waiter α)} :
    b ∈ tasks (enqueue w q) ↔ b ∈ tasks q ∨ b = w.task := by
  unfold enqueue
  split_ifs with h
  · exact ⟨.inl,fun hb => hb.elim id (fun he => he ▸ h)⟩
  · simp

theorem tasks_enqueue_nodup {w : Waiter α} {q : List (Waiter α)} (h : (tasks q).Nodup) :
    (tasks (enqueue w q)).Nodup := by
  unfold enqueue
  split_ifs with hw
  · exact h
  · rw [tasks_append]
    exact h.append (by simp) (by simpa using hw)

/-- How many entries there are before that of the sleeper. -/
def ahead (a : α) (q : List (Waiter α)) : ℕ := (tasks q).idxOf a

/-- Whose entries these are, in their order. -/
def before (a : α) (q : List (Waiter α)) : List α := (tasks q).take (ahead a q)

/-- What becomes of a queue while the sleepers in `rests` rest: somebody else leaves or joins it,
and it is woken a number of times. -/
inductive Change (rests : α → Prop) (q : List (Waiter α)) : ℕ → List (Waiter α) → Prop
  | woken (n : ℕ) : Change rests q n (wakeUp^[n] q)
  | left {b} (moves : ¬ rests b) (n : ℕ) : Change rests q n (wakeUp^[n] (dequeue b q))
  | joined {w} (moves : ¬ rests w.task) : Change rests q 0 (enqueue w q)

theorem ahead_cons_of_ne {a : α} {w : Waiter α} (ne : w.task ≠ a) (q : List (Waiter α)) :
    ahead a (w :: q) = ahead a q + 1 := List.idxOf_cons_ne _ ne

theorem ahead_wakeUp {a : α} {q : List (Waiter α)} (nodup : (tasks q).Nodup)
    (queued : a ∈ tasks (wakeUp q)) : ahead a (wakeUp q) + 1 ≤ ahead a q := by
  induction q with
  | nil => cases queued
  | cons w q ih =>
    obtain ⟨hw,hq⟩ := List.nodup_cons.mp nodup
    rw [wakeUp] at queued ⊢
    split_ifs at queued ⊢ with he
    · have hne : w.task ≠ a := fun heq => hw (heq ▸ queued)
      exact (ahead_cons_of_ne hne q).ge
    · have hmem : a ∈ tasks q := ((wakeUp_suffix q).map _).subset queued
      have hne : w.task ≠ a := fun heq => hw (heq ▸ hmem)
      rw [ahead_cons_of_ne hne]
      exact (ih hq queued).trans (Nat.le_succ _)

omit [DecidableEq α] in
theorem wakeUp_iterate_suffix (n : ℕ) (q : List (Waiter α)) : wakeUp^[n] q <:+ q := by
  induction n generalizing q with
  | zero => exact List.suffix_refl q
  | succ n ih => exact (ih (wakeUp q)).trans (wakeUp_suffix q)

theorem ahead_wakeUp_iterate {a : α} {n : ℕ} {q : List (Waiter α)} (nodup : (tasks q).Nodup)
    (queued : a ∈ tasks (wakeUp^[n] q)) : ahead a (wakeUp^[n] q) + n ≤ ahead a q := by
  induction n generalizing q with
  | zero => exact Nat.le_refl _
  | succ n ih =>
    have hrest := ih (nodup.sublist ((wakeUp_sublist q).map _)) queued
    have hmem : a ∈ tasks (wakeUp q) := ((wakeUp_iterate_suffix n _).map _).subset queued
    have hfirst := ahead_wakeUp nodup hmem
    rw [Function.iterate_succ_apply]
    omega

theorem ahead_enqueue {a : α} {q : List (Waiter α)} (queued : a ∈ tasks q) (w : Waiter α) :
    ahead a (enqueue w q) = ahead a q := by
  unfold enqueue ahead
  split_ifs
  · rfl
  · rw [tasks_append]
    exact List.idxOf_append_of_mem queued

theorem before_cons_of_ne {a : α} {w : Waiter α} (ne : w.task ≠ a) (q : List (Waiter α)) :
    before a (w :: q) = w.task :: before a q := by
  rw [before,ahead_cons_of_ne ne,tasks_cons,List.take_succ_cons]
  rfl

theorem before_suffix {a : α} {q r : List (Waiter α)} (suffix : r <:+ q) (nodup : (tasks q).Nodup)
    (queued : a ∈ tasks r) : (before a r).Sublist (before a q) := by
  obtain ⟨gone,rfl⟩ := suffix
  induction gone with
  | nil => exact List.Sublist.refl _
  | cons w gone ih =>
    obtain ⟨hw,hrest⟩ := List.nodup_cons.mp nodup
    have hmem : a ∈ tasks (gone ++ r) := by
      rw [tasks_append]
      exact List.mem_append_right _ queued
    have hne : w.task ≠ a := fun heq => hw (heq ▸ hmem)
    rw [List.cons_append,before_cons_of_ne hne]
    exact (ih hrest).trans (List.sublist_cons_self _ _)

theorem before_dequeue {a b : α} (ne : a ≠ b) (q : List (Waiter α)) :
    (before a (dequeue b q)).Sublist (before a q) := by
  induction q with
  | nil => exact List.Sublist.refl _
  | cons w q ih =>
    by_cases hb : w.task = b
    · have hdrop : dequeue b (w :: q) = dequeue b q := by simp [dequeue,hb]
      have hne : w.task ≠ a := fun heq => ne (heq.symm.trans hb)
      rw [hdrop,before_cons_of_ne hne]
      exact ih.trans (List.sublist_cons_self _ _)
    · have hkeep : dequeue b (w :: q) = w :: dequeue b q := by simp [dequeue,hb]
      rw [hkeep]
      by_cases ha : w.task = a
      · have hfirst : ahead a (w :: dequeue b q) = 0 := List.idxOf_cons_eq _ ha
        rw [before,hfirst]
        exact List.nil_sublist _
      · rw [before_cons_of_ne ha,before_cons_of_ne ha]
        exact ih.cons_cons _

theorem length_before (a : α) (q : List (Waiter α)) : (before a q).length = ahead a q :=
  List.length_take_of_le List.idxOf_le_length

theorem ahead_dequeue_le {a b : α} (ne : a ≠ b) (q : List (Waiter α)) :
    ahead a (dequeue b q) ≤ ahead a q := by
  rw [← length_before,← length_before]
  exact (before_dequeue ne q).length_le

theorem before_enqueue {a : α} {q : List (Waiter α)} (queued : a ∈ tasks q) (w : Waiter α) :
    before a (enqueue w q) = before a q := by
  unfold before
  rw [ahead_enqueue queued]
  unfold enqueue
  split_ifs
  · rfl
  · rw [tasks_append]
    exact List.take_append_of_le_length List.idxOf_le_length

namespace Change
variable {rests : α → Prop} {n : ℕ} {q q' : List (Waiter α)}

theorem nodup (h : Change rests q n q') (nodup : (tasks q).Nodup) : (tasks q').Nodup := by
  cases h with
  | woken => exact nodup.sublist ((wakeUp_iterate_suffix n q).sublist.map _)
  | @left b =>
    have hsub : (wakeUp^[n] (dequeue b q)).Sublist q :=
      (wakeUp_iterate_suffix n _).sublist.trans (dequeue_sublist b q)
    exact nodup.sublist (hsub.map _)
  | joined => exact tasks_enqueue_nodup nodup

/-- Who rests on the queue gets on by one entry for every wake-up. -/
theorem ahead_add_le (h : Change rests q n q') (nodup : (tasks q).Nodup) {a : α} (rest : rests a)
    (queued : a ∈ tasks q') : a ∈ tasks q ∧ ahead a q' + n ≤ ahead a q := by
  cases h with
  | woken =>
    exact ⟨((wakeUp_iterate_suffix n q).map _).subset queued,ahead_wakeUp_iterate nodup queued⟩
  | @left b moves =>
    have hmem : a ∈ tasks (dequeue b q) := ((wakeUp_iterate_suffix n _).map _).subset queued
    obtain ⟨hold,hne⟩ := mem_tasks_dequeue.mp hmem
    have hwoken := ahead_wakeUp_iterate (nodup.sublist ((dequeue_sublist b q).map _)) queued
    exact ⟨hold,hwoken.trans (ahead_dequeue_le hne q)⟩
  | @joined w moves =>
    have hne : a ≠ w.task := fun he => moves (he ▸ rest)
    have hold : a ∈ tasks q := (mem_tasks_enqueue.mp queued).resolve_right hne
    exact ⟨hold,(ahead_enqueue hold w).le⟩

/-- Nobody gets in before one who rests on the queue. -/
theorem before_sublist (h : Change rests q n q') (nodup : (tasks q).Nodup) {a : α} (rest : rests a)
    (queued : a ∈ tasks q') : (before a q').Sublist (before a q) := by
  cases h with
  | woken => exact before_suffix (wakeUp_iterate_suffix n q) nodup queued
  | @left b moves =>
    have hmem : a ∈ tasks (dequeue b q) := ((wakeUp_iterate_suffix n _).map _).subset queued
    have hwoken := before_suffix (wakeUp_iterate_suffix n (dequeue b q))
      (nodup.sublist ((dequeue_sublist b q).map _)) queued
    exact hwoken.trans (before_dequeue (mem_tasks_dequeue.mp hmem).2 q)
  | @joined w moves =>
    have hne : a ≠ w.task := fun he => moves (he ▸ rest)
    have hold : a ∈ tasks q := (mem_tasks_enqueue.mp queued).resolve_right hne
    rw [before_enqueue hold]

/-- Those who rest are woken in the order they have on the queue. -/
theorem suffix [DecidablePred rests] (h : Change rests q n q') :
    (tasks q').filter rests <:+ (tasks q).filter rests := by
  cases h with
  | woken => exact ((wakeUp_iterate_suffix n q).map _).filter _
  | @left b moves =>
    have hothers : (tasks (dequeue b q)).filter rests = (tasks q).filter rests := by
      unfold tasks dequeue
      rw [List.filter_map,List.filter_map,List.filter_filter]
      congr 1
      refine List.filter_congr fun w _ => ?_
      by_cases hb : w.task = b
      · simp [hb,moves]
      · simp [hb]
    rw [← hothers]
    exact ((wakeUp_iterate_suffix n _).map _).filter _
  | @joined w moves =>
    unfold enqueue
    split_ifs
    · exact List.suffix_refl _
    · simp [moves]

end Change

/-- Two exclusive sleepers queue, a third task waits with them but not exclusively: a
wake-up takes the first two entries here and leaves the last. -/
example : wakeUp [⟨3,false⟩,⟨1,true⟩,⟨2,true⟩] = [(⟨2,true⟩ : Waiter ℕ)] := rfl

end Concurrency.WaitQueue
