import ProcessMessagePassing.Kernel.Projection
import ProcessMessagePassing.Mailbox.Waiters

/-! The order in which the sleepers of a mailbox are woken. Every message that is added or taken and
every stop lets the head of the queue go, and nobody gets in before those who sleep already. -/
namespace ProcessMessagePassing
open Concurrency Concurrency.WaitQueue

/-- The section does what its caller came for, and wakes the queue: it adds a message, takes one, or
writes the status. -/
def CallState.wakes {μ : Type} : CallState μ → Progress μ → Bool
  | .addMessage _ _ _,.returned (.code .ok) => true
  | .addWaiting _ _,.returned (.code .ok) => true
  | .removeMessage _,.returned (.message _) => true
  | .removeWaiting,.returned (.message _) => true
  | .stop _,_ => true
  | .destroy,_ => true
  | _,_ => false

namespace Mailbox
variable {α μ : Type} [DecidableEq α] {a : α} {sig : Bool} {m m' : Mailbox α μ} {cs : CallState μ}
  {pr : Progress μ} {rests : α → Prop}

/-- A section of somebody who does not rest changes the queue as one who does not rest may. -/
lemma Locked.change (h : Locked a sig m cs m' pr) (moves : ¬ rests a) :
    ∃ n, (cs.wakes pr).toNat ≤ n ∧ Change rests m.modifyQueue n m'.modifyQueue := by
  cases h with
  | addStopped | addFull | removeStopped | removeEmpty | claimNow | freeNow =>
    exact ⟨0,le_rfl,.woken 0⟩
  | unclaimNow =>
    rw [unclaim_modifyQueue]
    exact ⟨0,le_rfl,.woken 0⟩
  | addNow | removeNow | stopNow | destroyStop => exact ⟨1,le_rfl,.woken 1⟩
  | addSignalled | removeSignalled | addWokenStopped | addInterrupted | removeWokenStopped
  | removeInterrupted => exact ⟨1,Nat.zero_le 1,.left moves 1⟩
  -- who has slept wakes others as he leaves, and again when he is through
  | addWoken | removeWoken => exact ⟨2,one_le_two,.left moves 2⟩
  | addSleep | addAgain | removeSleep | removeAgain => exact ⟨0,le_rfl,.joined moves⟩
  | flushSleep flushing => rcases flushing with rfl | rfl <;> exact ⟨0,le_rfl,.joined moves⟩
  | flushNow flushing => rcases flushing with rfl | rfl <;> exact ⟨0,le_rfl,.left moves 0⟩
  | unclaimedSleep awaiting => rcases awaiting with rfl | rfl <;> exact ⟨0,le_rfl,.woken 0⟩
  | unclaimedNow awaiting => rcases awaiting with rfl | rfl <;> exact ⟨0,le_rfl,.woken 0⟩

end Mailbox

namespace System
variable {hash32 : Pid → ℕ} {sig : Actor → Bool} {s s' : System} {act : Action} {m : ℕ}
  {tr tr' : List (System × Action)} {rests : Actor → Prop}

/-- The step adds a message to the mailbox, takes one from it or stops it. -/
def wakes (m : ℕ) (s : System) (act : Action) : Bool :=
  (s.running act).any fun (a,n,cs) =>
    decide (n = m) && cs.wakes (Mailbox.criticalSection a (s.signalPending a) (s.mailboxes n) cs).2

/-- How often that happens in these steps. -/
def wakeUps (m : ℕ) (tr : List (System × Action)) : ℕ := tr.countP fun x => x.1.wakes m x.2

lemma wakeUps_snoc : wakeUps m (tr ++ [(s,act)]) = wakeUps m tr + (s.wakes m act).toNat := by
  rw [wakeUps,List.countP_append]
  cases h : s.wakes m act <;> simp [wakeUps,h]

/-- A step of somebody who does not rest. -/
lemma Stepped.change (h : Stepped hash32 s act s') (created : m < s.mailboxesCreated)
    (moves : ∀ a, act.actor = some a → ¬ rests a) : ∃ n, (s.wakes m act).toNat ≤ n ∧
      Change rests (s.mailboxes m).modifyQueue n (s'.mailboxes m).modifyQueue := by
  by_cases on : ∃ a cs, s.running act = some (a,m,cs)
  · obtain ⟨a,cs,running⟩ := on
    obtain ⟨pr,locked⟩ := h.section_of_running running
    have hwakes : s.wakes m act = cs.wakes pr := by simp [wakes,running,locked.result]
    rw [hwakes]
    exact locked.2.change (moves a (running_eq_some_iff.mp running).1)
  · have hwakes : s.wakes m act = false := by
      cases hrun : s.running act with
      | none => simp [wakes,hrun]
      | some y =>
        obtain ⟨a,n,cs⟩ := y
        have hn : n ≠ m := fun he => on ⟨a,cs,he ▸ hrun⟩
        simp [wakes,hrun,hn]
    rw [hwakes]
    cases h.mailboxStep m with
    | same mailbox =>
      rw [mailbox]
      exact ⟨0,le_rfl,.woken 0⟩
    | created new => exact absurd new created.ne
    | run running => exact absurd ⟨_,_,running⟩ on

lemma created_of_run (h : Run (step hash32) s tr s') (created : m < s.mailboxesCreated) :
    m < s'.mailboxesCreated := by
  induction h with
  | refl => exact created
  | snoc prior taken ih =>
    rcases mailboxesCreated_stepped (step_stepped taken) with he | ⟨he,-⟩ <;> omega

lemma modifyQueue_nodup (h : Run (step hash32) (initial sig) tr s) (created : m < s.mailboxesCreated) :
    (tasks (s.mailboxes m).modifyQueue).Nodup := by
  obtain ⟨pending,tr',hrun⟩ := project_run h created
  exact (MailboxSystem.waitInvariant_of_run hrun).entries.1

/-- Of those who rest, the last on the queue stay on it. Each has got on by as many places at least as
the queue has been woken, and whoever is before him was before him already. -/
structure WokenInTurn (rests : Actor → Prop) [DecidablePred rests] (m : ℕ)
    (tr : List (System × Action)) (s s' : System) : Prop where
  order : (tasks (s'.mailboxes m).modifyQueue).filter rests <:+
    (tasks (s.mailboxes m).modifyQueue).filter rests
  advance : ∀ a, rests a → a ∈ tasks (s'.mailboxes m).modifyQueue →
    a ∈ tasks (s.mailboxes m).modifyQueue ∧
      ahead a (s'.mailboxes m).modifyQueue + wakeUps m tr ≤ ahead a (s.mailboxes m).modifyQueue
  first : ∀ a, rests a → a ∈ tasks (s'.mailboxes m).modifyQueue →
    (before a (s'.mailboxes m).modifyQueue).Sublist (before a (s.mailboxes m).modifyQueue)

/-- First come, first woken: whoever else runs, sleepers that take no step are woken in the order in
which they sleep, one at least for every message that is added or taken and for every stop. -/
theorem woken_in_turn [DecidablePred rests] (h : Run (step hash32) (initial sig) tr s)
    (created : m < s.mailboxesCreated) (h' : Run (step hash32) s tr' s')
    (rest : ∀ a, rests a → ∀ x ∈ tr', x.2.actor ≠ some a) : WokenInTurn rests m tr' s s' := by
  induction h' with
  | refl =>
    refine ⟨List.suffix_refl _,fun a _ queued => ⟨queued,le_rfl⟩,fun a _ _ => List.Sublist.refl _⟩
  | @snoc tr' u act s' prior taken ih =>
    have hprior : WokenInTurn rests m tr' s u :=
      ih fun a ha x hx => rest a ha x (List.mem_append_left _ hx)
    have hu : Run (step hash32) (initial sig) (tr ++ tr') u := h.append prior
    have hcreated : m < u.mailboxesCreated := created_of_run prior created
    have hmoves : ∀ a, act.actor = some a → ¬ rests a :=
      fun a hact ha => rest a ha (u,act) (by simp) hact
    obtain ⟨n,hn,hchange⟩ := (step_stepped taken).change hcreated hmoves
    have hnodup := modifyQueue_nodup hu hcreated
    refine ⟨hchange.suffix.trans hprior.order,fun a ha queued => ?_,fun a ha queued => ?_⟩
    · obtain ⟨hqueued,hstep⟩ := hchange.ahead_add_le hnodup ha queued
      obtain ⟨hold,hrun⟩ := hprior.advance a ha hqueued
      refine ⟨hold,?_⟩
      rw [wakeUps_snoc]
      omega
    · obtain ⟨hqueued,-⟩ := hchange.ahead_add_le hnodup ha queued
      exact (hchange.before_sublist hnodup ha queued).trans (hprior.first a ha hqueued)

/-- Two threads of process 1001 sleep in a receive from its mailbox. Then 1001 sends itself a message,
and 1003, who came later, sleeps on. -/
theorem woken_in_turn_by_send : ∃ (tr tr' : List (System × Action)) (s s' : System),
    Run (step goldenHash32) (initial fun _ => false) tr s ∧ Run (step goldenHash32) s tr' s' ∧
      tasks (s.mailboxes 0).modifyQueue = [.task 1002,.task 1003] ∧
      tasks (s'.mailboxes 0).modifyQueue = [.task 1003] ∧ wakeUps 0 tr' = 1 ∧
      WokenInTurn (fun a => a = .task 1002 ∨ a = .task 1003) 0 tr' s s' := by
  obtain ⟨tr,s,hrun,htest⟩ := exists_run_of_execute (step goldenHash32) (initial fun _ => false)
    ([.newProcess 1001 1000,.clone 1001 1002,.clone 1001 1003,
      .enter 1002 (.recieveMessage ⟨4,0,4⟩ true)] ++ runs 1002 4 ++
      [.enter 1003 (.recieveMessage ⟨4,0,4⟩ true)] ++ runs 1003 5)
    (fun _ s => decide (0 < s.mailboxesCreated ∧
        tasks (s.mailboxes 0).modifyQueue = [Actor.task 1002,Actor.task 1003]) &&
      (execute (step goldenHash32) s ([.enter 1001 (.sendMessage 1001 0 false)] ++ runs 1001 6)).any
        fun r : List (System × Action) × System =>
          decide (tasks (r.2.mailboxes 0).modifyQueue = [Actor.task 1003] ∧ wakeUps 0 r.1 = 1) &&
          r.1.all fun x => decide (x.2.actor ≠ some (.task 1002) ∧ x.2.actor ≠ some (.task 1003)))
    (by decide +kernel)
  simp only [Bool.and_eq_true,decide_eq_true_eq] at htest
  obtain ⟨⟨hcreated,hqueue⟩,hlater⟩ := htest
  obtain ⟨tr',s',hrun',htest'⟩ := exists_run_of_execute (step goldenHash32) s _
    (fun tr s => decide (tasks (s.mailboxes 0).modifyQueue = [Actor.task 1003] ∧ wakeUps 0 tr = 1) &&
      tr.all fun x => decide (x.2.actor ≠ some (.task 1002) ∧ x.2.actor ≠ some (.task 1003))) hlater
  simp only [Bool.and_eq_true,decide_eq_true_eq,List.all_eq_true] at htest'
  obtain ⟨⟨hqueue',hwakes⟩,hothers⟩ := htest'
  refine ⟨tr,tr',s,s',hrun,hrun',hqueue,hqueue',hwakes,woken_in_turn hrun hcreated hrun' ?_⟩
  rintro a (rfl | rfl) x hx
  · exact (hothers x hx).1
  · exact (hothers x hx).2

end System
end ProcessMessagePassing
