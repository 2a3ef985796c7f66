import ProcessMessagePassing.Mailbox.Stopped
import ProcessMessagePassing.Mailbox.Waiters

/-! One wake-up issued by a stop reaches every sleeper. As long as somebody sleeps on a stopped
mailbox, an exclusive sleeper has been woken and not run yet; it hands the wake-up on before it
leaves, and the last one to leave wakes the destroyer. -/
namespace ProcessMessagePassing.MailboxSystem
open Concurrency Concurrency.WaitQueue

variable {α μ : Type}

/-- Somebody has the wake-up while an exclusive sleeper is queued, and a queued destroyer still
has callers to wait for. -/
structure Cascade (s : MailboxSystem α μ) : Prop where
  woken : ∀ w ∈ s.mailbox.modifyQueue, w.exclusive = true →
    ∃ a, Entries.Woken s.calls s.mailbox.modifyQueue a
  destroyer : ∀ w ∈ s.mailbox.modifyQueue, w.exclusive = false → s.mailbox.waiting ≠ 0

/-- Any wake-up sets the cascade going, whatever the queue was. -/
theorem WaitInvariant.cascade_of_wakeUp {s : MailboxSystem α μ} (h : WaitInvariant s)
    {q : List (Waiter α)} (hq : s.mailbox.modifyQueue = wakeUp q) (he : Entries s.calls q) :
    Cascade s := by
  have hwoken : ∀ w ∈ s.mailbox.modifyQueue,
      ∃ a, Entries.Woken s.calls s.mailbox.modifyQueue a := by
    intro w hw
    rw [hq] at hw ⊢
    exact he.woken_of_wakeUp (List.ne_nil_of_mem hw)
  refine ⟨fun w hw _ => hwoken w hw,fun w hw _ hz => ?_⟩
  obtain ⟨a,ha,-⟩ := hwoken w hw
  exact h.waiting.zero_iff.mp hz a ha

variable [DecidableEq α]

theorem Cascade.queueStep {s : MailboxSystem α μ} (hi : WaitInvariant s) {a : α}
    {m' : Mailbox α μ} {v : Option (CallState μ)}
    (hc : s.mailbox.stopped ≠ 0 → Cascade s) (stopped : m'.stopped ≠ 0)
    (hq : Mailbox.QueueStep a s.mailbox (entryFlag (s.calls a)) m' (entryFlag v)) :
    Cascade { s with mailbox := m', calls := Function.update s.calls a v } := by
  have hi' := hi.queueStep hq
  generalize hf : entryFlag (s.calls a) = flag at hq
  generalize hg : entryFlag v = flag' at hq
  cases hq with
  | idle queue waiting stop _ =>
    obtain ⟨hw,hd⟩ := hc (stop ▸ stopped)
    refine ⟨fun w hm he => ?_,fun w hm he => ?_⟩
    · change w ∈ m'.modifyQueue at hm
      rw [queue] at hm
      obtain ⟨b,hb⟩ := hw w hm he
      refine ⟨b,?_⟩
      change Entries.Woken _ m'.modifyQueue b
      rw [queue]
      exact hb.update (by simp [hf])
    · change w ∈ m'.modifyQueue at hm
      rw [queue] at hm
      change m'.waiting ≠ 0
      rw [waiting]
      exact hd w hm he
  | wake q sub queue waiting =>
    exact hi'.cascade_of_wakeUp queue ((hi.entries.update_off (hi.entries.notMem hf)).sublist sub)
  | leave q sub off queue waiting =>
    exact hi'.cascade_of_wakeUp queue ((hi.entries.sublist sub).update_off off)
  | enter running => exact absurd running stopped
  | again running => exact absurd running stopped
  | join flush busy =>
    obtain ⟨hw,-⟩ := hc stopped
    refine ⟨fun w hm he => ?_,fun _ _ _ => busy⟩
    have hm' : w ∈ s.mailbox.modifyQueue := by
      rcases mem_enqueue hm with hm | rfl
      · exact hm
      · cases he
    obtain ⟨b,hb⟩ := hw w hm' he
    have hnot : entryFlag (s.calls a) ≠ some true := by
      rw [hf]
      rcases flush with rfl | rfl <;> simp
    have hba : b ≠ a := fun he => hnot (he ▸ hb.1)
    refine ⟨b,(hb.update hnot).1,?_⟩
    simpa [Mailbox.requeue,hba] using hb.2
  | drop flush =>
    obtain ⟨hw,hd⟩ := hc stopped
    refine ⟨fun w hm he => ?_,fun w hm he => ?_⟩
    · obtain ⟨b,hb⟩ := hw w (mem_dequeue.mp hm).1 he
      have hb' : Entries.Woken (Function.update s.calls a v) _ b :=
        hb.update (by rw [hf]; rcases flush with rfl | rfl <;> simp)
      exact ⟨b,hb'.1,fun hm => hb'.2 (mem_tasks_dequeue.mp hm).1⟩
    · exact hd w (mem_dequeue.mp hm).1 he

theorem cascade_stepped {s s' : MailboxSystem α μ} {act : Action α μ} (hi : WaitInvariant s)
    (hc : s.mailbox.stopped ≠ 0 → Cascade s) (hs : Stepped s act s')
    (stopped : s'.mailbox.stopped ≠ 0) : Cascade s' := by
  cases hs with
  | @invoke a c idle =>
    obtain ⟨hw,hd⟩ := hc stopped
    refine ⟨fun w hm he => ?_,hd⟩
    obtain ⟨b,hb⟩ := hw w hm he
    exact ⟨b,hb.update (by simp [idle])⟩
  | signal => exact ⟨(hc stopped).woken,(hc stopped).destroyer⟩
  | handle => exact ⟨(hc stopped).woken,(hc stopped).destroyer⟩
  | run called _ _ locked =>
    refine Cascade.queueStep hi hc stopped ?_
    rw [called]
    exact locked.queueStep

variable {owner : Pid} {sig : α → Bool} {tr : List (MailboxSystem α μ × Action α μ)}
  {s : MailboxSystem α μ}

theorem cascade_of_run (h : Run step (create owner sig) tr s)
    (stopped : s.mailbox.stopped ≠ 0) : Cascade s := by
  have hboth : WaitInvariant s ∧ (s.mailbox.stopped ≠ 0 → Cascade s) :=
    h.invariant (P := fun t => WaitInvariant t ∧ (t.mailbox.stopped ≠ 0 → Cascade t))
      ⟨waitInvariant_create owner sig,fun hz => absurd rfl hz⟩
      fun _ _ _ hs ht => ⟨hs.1.stepped (step_stepped ht),
        cascade_stepped hs.1 hs.2 (step_stepped ht)⟩
  exact hboth.2 stopped

/-- The caller is asleep in `modify_queue`, in one of the three wait loops on it. -/
def AsleepInModifyQueue (c : Option (CallState μ)) : Prop := entryFlag c ≠ none

/-- A sleeper that cannot run is still on the queue, under its own flag. -/
lemma Quiescent.mem_queue {s : MailboxSystem α μ} (hq : Quiescent s) (hi : WaitInvariant s)
    {a : α} {b : Bool} (ha : entryFlag (s.calls a) = some b) :
    (⟨a,b⟩ : Waiter α) ∈ s.mailbox.modifyQueue := by
  obtain ⟨cs,hcs⟩ : ∃ cs, s.calls a = some cs := by
    cases hc : s.calls a with
    | none => rw [hc] at ha; cases ha
    | some cs => exact ⟨cs,rfl⟩
  have hr := hq a cs hcs
  have hm : a ∈ tasks s.mailbox.modifyQueue := by
    rw [hcs] at ha
    cases cs <;> simp_all [CallState.entryFlag,Mailbox.runnable]
  obtain ⟨w,hw,rfl⟩ := List.mem_map.mp hm
  have hwb : some w.exclusive = some b := (hi.entries.2 w hw).symm.trans ha
  obtain ⟨task,exclusive⟩ := w
  cases hwb
  exact hw

/-- When nothing on a stopped mailbox can run, nobody sleeps on it: no sender, no receiver and
no destroyer. The counter of the sleepers is right in every state. -/
theorem stop_releases_every_sleeper (h : Run step (create owner sig) tr s) :
    (Counts s.mailbox.waiting s.calls Waits ∧ 0 ≤ s.mailbox.waiting) ∧
    (s.mailbox.stopped ≠ 0 → Quiescent s → ∀ a, ¬ AsleepInModifyQueue (s.calls a)) := by
  have hi := waitInvariant_of_run h
  refine ⟨⟨hi.waiting,hi.waiting.nonneg⟩,fun stopped hq a ha => ?_⟩
  have hc := cascade_of_run h stopped
  have hexcl : ∀ b, ¬ Waits (s.calls b) := by
    intro b hb
    obtain ⟨c,hcw,hcq⟩ := hc.woken _ (hq.mem_queue hi hb) rfl
    exact hcq (List.mem_map.mpr ⟨_,hq.mem_queue hi hcw,rfl⟩)
  cases hf : entryFlag (s.calls a) with
  | none => exact ha hf
  | some b =>
    cases b with
    | true => exact hexcl a hf
    | false =>
      have hwait := hc.destroyer _ (hq.mem_queue hi hf) rfl
      exact hwait (hi.waiting.zero_iff.mpr hexcl)

/-- Two receivers sleep, the mailbox is stopped, and the one wake-up releases both. -/
theorem stop_releases_two_sleepers :
    ∃ tr s, Run step (create 1 fun _ => false : MailboxSystem (Fin 3) Unit) tr s ∧
      s.mailbox.stopped ≠ 0 ∧ 0 ≤ s.mailbox.waiting ∧ ∀ a, ¬ AsleepInModifyQueue (s.calls a) := by
  obtain ⟨tr,s,hrun,htest⟩ := exists_run_of_execute step
    (create 1 fun _ => false : MailboxSystem (Fin 3) Unit)
    [.invoke 0 (.remove true),.run 0,.invoke 1 (.remove true),.run 1,.invoke 2 .stop,.run 2,
      .run 0,.run 1]
    (fun _ s => decide (s.mailbox.stopped ≠ 0 ∧ ∀ a, s.calls a = none)) (by decide)
  simp only [decide_eq_true_eq] at htest
  obtain ⟨stopped,hidle⟩ := htest
  have quiet : Quiescent s := fun a cs hc => by rw [hidle a] at hc; cases hc
  obtain ⟨⟨-,hwaiting⟩,hawake⟩ := stop_releases_every_sleeper hrun
  exact ⟨tr,s,hrun,stopped,hwaiting,hawake stopped quiet⟩

end ProcessMessagePassing.MailboxSystem
