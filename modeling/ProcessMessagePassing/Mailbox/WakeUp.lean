import ProcessMessagePassing.Mailbox.Contents
import ProcessMessagePassing.Mailbox.Waiters

/-! Lost wake-ups. Senders and receivers share one exclusive queue, so a wake-up may go to a
sleeper whose condition is false; it goes back to the tail and wakes nobody. A wake-up is lost
when it was the last one outstanding and a sleeper left on the queue could have used it. -/
namespace ProcessMessagePassing.MailboxSystem
open Concurrency Concurrency.WaitQueue

variable {α μ : Type}

/-- The condition a blocking call waits for, as it reads it under the lock. -/
def Ready (m : Mailbox α μ) (c : Option (CallState μ)) : Prop :=
  match c with
  | some (.addWaiting _ _) => m.stopped ≠ 0 ∨ m.messageCount < m.messageMax
  | some .removeWaiting => m.stopped ≠ 0 ∨ m.messageCount ≠ 0
  | _ => False

/-- A sleeper left on the queue could go on. -/
def ReadyQueued (m : Mailbox α μ) (calls : α → Option (CallState μ)) : Prop :=
  ∃ w ∈ m.modifyQueue, Ready m (calls w.task)

/-- Whenever a queued sleeper could go on, some sleeper has a wake-up outstanding. -/
def HandedOn (s : MailboxSystem α μ) : Prop :=
  ReadyQueued s.mailbox s.calls → ∃ a, Entries.Woken s.calls s.mailbox.modifyQueue a

/-- The woken sleeper finds its condition false and no signal pending, so it is about to go
back to the tail; its wake-up is the last one outstanding, and a queued sleeper could go on. -/
def LosesWakeUp (s : MailboxSystem α μ) (act : Action α μ) : Prop :=
  ∃ a, act = .run a ∧ Waits (s.calls a) ∧ ¬ Ready s.mailbox (s.calls a) ∧
    s.signalPending a = false ∧
    (∀ b, Entries.Woken s.calls s.mailbox.modifyQueue b → b = a) ∧
    ReadyQueued s.mailbox s.calls

variable [DecidableEq α]

/-- Nobody sleeps for a condition that holds once everything on a running mailbox has come to
rest: receivers sleep on an empty mailbox and senders on a full one. -/
def NoLostWakeUp (s : MailboxSystem α μ) : Prop :=
  s.mailbox.stopped = 0 → Quiescent s →
    (∀ a, s.calls a = some .removeWaiting → s.mailbox.messageCount = 0) ∧
    ∀ a x head, s.calls a = some (.addWaiting x head) →
      s.mailbox.messageCount = s.mailbox.messageMax

omit [DecidableEq α] in
lemma Ready.waits {m : Mailbox α μ} {c : Option (CallState μ)} (h : Ready m c) : Waits c := by
  unfold Ready at h
  split at h
  · rfl
  · rfl
  · exact h.elim

omit [DecidableEq α] in
lemma ready_congr {m m' : Mailbox α μ} (stopped : m'.stopped = m.stopped)
    (count : m'.messageCount = m.messageCount) (max : m'.messageMax = m.messageMax)
    (c : Option (CallState μ)) : Ready m' c ↔ Ready m c := by
  unfold Ready
  rw [stopped,count,max]

/-- A caller that waits before and after a section found its condition false and no signal. -/
lemma unready_of_again {a : α} {sig : Bool} {m m' : Mailbox α μ} {cs : CallState μ}
    {p : Progress μ} (h : Mailbox.Locked a sig m cs m' p) (before : Waits (some cs))
    (after : Waits p.callState) : ¬ Ready m (some cs) ∧ sig = false := by
  cases h with
  | addAgain running full quiet =>
    refine ⟨?_,quiet⟩
    rintro (stopped | room)
    · exact stopped running
    · omega
  | removeAgain running empty quiet =>
    refine ⟨?_,quiet⟩
    rintro (stopped | some)
    · exact stopped running
    · exact some empty
  | flushSleep h | flushNow h => rcases h with rfl | rfl <;> cases before
  | unclaimedSleep h | unclaimedNow h => rcases h with rfl | rfl <;> cases before
  | addWokenStopped | addWoken | addInterrupted => cases after
  | removeWokenStopped | removeWoken | removeInterrupted => cases after
  | _ => cases before

omit [DecidableEq α] in
theorem HandedOn.of_wakeUp {s : MailboxSystem α μ} {q : List (Waiter α)}
    (hq : s.mailbox.modifyQueue = wakeUp q) (he : Entries s.calls q) : HandedOn s := by
  rintro ⟨w,hw,-⟩
  rw [hq] at hw ⊢
  exact he.woken_of_wakeUp (List.ne_nil_of_mem hw)

/-- The ready sleepers on the queue after a section that neither wakes anybody nor changes a
condition were there before, if the section leaves its own caller unready. -/
lemma ReadyQueued.before {s : MailboxSystem α μ} {a : α} {m' : Mailbox α μ}
    {v : Option (CallState μ)} (h : ReadyQueued m' (Function.update s.calls a v))
    (stopped : m'.stopped = s.mailbox.stopped)
    (count : m'.messageCount = s.mailbox.messageCount)
    (max : m'.messageMax = s.mailbox.messageMax) (unready : ¬ Ready s.mailbox v)
    (queue : ∀ w ∈ m'.modifyQueue, w.task = a ∨ w ∈ s.mailbox.modifyQueue) :
    ∃ w ∈ s.mailbox.modifyQueue, w.task ≠ a ∧ Ready s.mailbox (s.calls w.task) ∧
      w ∈ m'.modifyQueue := by
  obtain ⟨w,hw,hr⟩ := h
  rw [ready_congr stopped count max] at hr
  by_cases hwa : w.task = a
  · rw [hwa,Function.update_self] at hr
    exact absurd hr unready
  · rw [Function.update_of_ne hwa] at hr
    exact ⟨w,(queue w hw).resolve_left hwa,hwa,hr,hw⟩

theorem HandedOn.queueStep {s : MailboxSystem α μ} (hi : WaitInvariant s) (hh : HandedOn s)
    {a : α} {m' : Mailbox α μ} {v : Option (CallState μ)}
    (max : m'.messageMax = s.mailbox.messageMax)
    (unready : Waits v → ¬ Ready s.mailbox v)
    (again : Waits (s.calls a) → Waits v →
      (∃ b, b ≠ a ∧ Entries.Woken s.calls s.mailbox.modifyQueue b) ∨
        ¬ ReadyQueued s.mailbox s.calls)
    (hq : Mailbox.QueueStep a s.mailbox (entryFlag (s.calls a)) m' (entryFlag v)) :
    HandedOn { s with mailbox := m', calls := Function.update s.calls a v } := by
  have hunready : ¬ Ready s.mailbox v := fun hr => unready hr.waits hr
  have henqueued : ∀ {e : Waiter α}, e.task = a → ∀ w ∈ enqueue e s.mailbox.modifyQueue,
      w.task = a ∨ w ∈ s.mailbox.modifyQueue := by
    intro e he w hw
    rcases mem_enqueue hw with hw | rfl
    · exact .inr hw
    · exact .inl he
  generalize hf : entryFlag (s.calls a) = flag at hq
  generalize hg : entryFlag v = flag' at hq
  cases hq with
  | idle queue waiting stop count =>
    intro hr
    obtain ⟨w,hw,-,hwr,-⟩ := ReadyQueued.before hr stop count max hunready
      (fun w hw => .inr (queue ▸ hw))
    obtain ⟨b,hb⟩ := hh ⟨w,hw,hwr⟩
    refine ⟨b,?_⟩
    change Entries.Woken _ m'.modifyQueue b
    rw [queue]
    exact hb.update (by simp [hf])
  | wake q sub queue waiting =>
    exact HandedOn.of_wakeUp queue ((hi.entries.update_off (hi.entries.notMem hf)).sublist sub)
  | leave q sub off queue waiting =>
    exact HandedOn.of_wakeUp queue ((hi.entries.sublist sub).update_off off)
  | enter running =>
    intro hr
    obtain ⟨w,hw,-,hwr,-⟩ := ReadyQueued.before hr rfl rfl rfl hunready (henqueued rfl)
    obtain ⟨b,hb⟩ := hh ⟨w,hw,hwr⟩
    have hnot : entryFlag (s.calls a) ≠ some true := by simp [hf]
    have hba : b ≠ a := fun he => hnot (he ▸ hb.1)
    exact ⟨b,(hb.update hnot).1,by simpa [Mailbox.enterWait,hba] using hb.2⟩
  | again running =>
    intro hr
    obtain ⟨w,hw,-,hwr,-⟩ := ReadyQueued.before hr rfl rfl rfl hunready (henqueued rfl)
    rcases again hf hg with ⟨b,hba,hb⟩ | hnone
    · refine ⟨b,?_,by simpa [Mailbox.requeue,hba] using hb.2⟩
      change entryFlag (Function.update s.calls a v b) = some true
      rw [Function.update_of_ne hba]
      exact hb.1
    · exact absurd ⟨w,hw,hwr⟩ hnone
  | join flush busy =>
    intro hr
    obtain ⟨w,hw,-,hwr,-⟩ := ReadyQueued.before hr rfl rfl rfl hunready (henqueued rfl)
    obtain ⟨b,hb⟩ := hh ⟨w,hw,hwr⟩
    have hnot : entryFlag (s.calls a) ≠ some true := by
      rw [hf]
      rcases flush with rfl | rfl <;> simp
    have hba : b ≠ a := fun he => hnot (he ▸ hb.1)
    exact ⟨b,(hb.update hnot).1,by simpa [Mailbox.requeue,hba] using hb.2⟩
  | drop flush =>
    intro hr
    obtain ⟨w,hw,-,hwr,-⟩ := ReadyQueued.before hr rfl rfl rfl hunready
      fun w hw => .inr (mem_dequeue.mp hw).1
    obtain ⟨b,hb⟩ := hh ⟨w,hw,hwr⟩
    have hb' : Entries.Woken (Function.update s.calls a v) _ b :=
      hb.update (by rw [hf]; rcases flush with rfl | rfl <;> simp)
    exact ⟨b,hb'.1,fun hm => hb'.2 (mem_tasks_dequeue.mp hm).1⟩

/-- A caller goes to sleep only with its condition false. -/
lemma unready_of_sleep {a : α} {sig : Bool} {m m' : Mailbox α μ}
    {cs : CallState μ} {p : Progress μ} (h : Mailbox.Locked a sig m cs m' p)
    (after : Waits p.callState) : ¬ Ready m p.callState := by
  cases h with
  | addSleep running full | addAgain running full =>
    rintro (stopped | room)
    · exact stopped running
    · omega
  | removeSleep running empty | removeAgain running empty =>
    rintro (stopped | some)
    · exact stopped running
    · exact some empty
  | _ => cases after

/-- A sleeper that finds its condition false and no signal goes back to the queue. -/
lemma again_of_unready {a : α} {sig : Bool} {m m' : Mailbox α μ} {cs : CallState μ}
    {p : Progress μ} (h : Mailbox.Locked a sig m cs m' p) (waits : Waits (some cs))
    (unready : ¬ Ready m (some cs)) (quiet : sig = false) :
    m' = m.requeue ⟨a,true⟩ ∧ p.callState = some cs := by
  cases h with
  | addAgain | removeAgain => exact ⟨rfl,rfl⟩
  | addWokenStopped stopped | removeWokenStopped stopped => exact absurd (.inl stopped) unready
  | addWoken _ room => exact absurd (.inr room) unready
  | removeWoken some => exact absurd (.inr some) unready
  | addInterrupted _ _ signalled | removeInterrupted _ _ signalled =>
    rw [signalled] at quiet
    cases quiet
  | flushSleep h | flushNow h => rcases h with rfl | rfl <;> cases waits
  | unclaimedSleep h | unclaimedNow h => rcases h with rfl | rfl <;> cases waits
  | _ => cases waits

/-- A caller that starts its section as a sleeper and may run was woken, or has a signal. -/
lemma woken_of_runnable {s : MailboxSystem α μ} {a : α} {cs : CallState μ}
    (called : s.calls a = some cs) (waits : Waits (some cs))
    (runnable : s.mailbox.runnable a (s.signalPending a) cs = true)
    (quiet : s.signalPending a = false) : Entries.Woken s.calls s.mailbox.modifyQueue a := by
  refine ⟨called ▸ waits,?_⟩
  cases cs <;> simp_all [Waits,CallState.entryFlag,Mailbox.runnable]

theorem HandedOn.stepped {s s' : MailboxSystem α μ} {act : Action α μ} (hi : WaitInvariant s)
    (hh : HandedOn s) (kept : ¬ LosesWakeUp s act) (hs : Stepped s act s') : HandedOn s' := by
  cases hs with
  | @invoke a c idle =>
    intro hr
    obtain ⟨w,hw,-,hwr,-⟩ := ReadyQueued.before hr rfl rfl rfl
      (fun hr => by cases c <;> exact hr) (fun w hw => .inr hw)
    obtain ⟨b,hb⟩ := hh ⟨w,hw,hwr⟩
    exact ⟨b,hb.update (by simp [idle])⟩
  | signal => exact hh
  | handle => exact hh
  | @run a cs m p called runnable _ locked =>
    refine HandedOn.queueStep hi hh locked.messageMax_eq (unready_of_sleep locked) ?_ ?_
    · intro before after
      rw [called] at before
      obtain ⟨unready,quiet⟩ := unready_of_again locked before after
      by_contra hne
      push Not at hne
      obtain ⟨hlast,hready⟩ := hne
      refine kept ⟨a,rfl,called ▸ before,called ▸ unready,quiet,fun b hb => ?_,hready⟩
      by_contra hba
      exact hlast b hba hb
    · rw [called]
      exact locked.queueStep

variable {owner : Pid} {sig : α → Bool} {tr : List (MailboxSystem α μ × Action α μ)}
  {s : MailboxSystem α μ}

theorem handedOn_of_run (h : Run step (create owner sig) tr s)
    (kept : ∀ x ∈ tr, ¬ LosesWakeUp x.1 x.2) : HandedOn s := by
  have hboth : WaitInvariant s ∧ HandedOn s :=
    h.invariant_of_guard (P := fun t => WaitInvariant t ∧ HandedOn t)
      ⟨waitInvariant_create owner sig,by rintro ⟨w,hw,-⟩; cases hw⟩
      (fun _ _ _ hs hk ht => ⟨hs.1.stepped (step_stepped ht),
        HandedOn.stepped hs.1 hs.2 hk (step_stepped ht)⟩) kept
  exact hboth.2

/-- A queued sleeper that cannot run is not ready if the wake-ups have been handed on. -/
lemma HandedOn.unready {s : MailboxSystem α μ} (hh : HandedOn s) (quiet : Quiescent s) {a : α}
    (waits : Waits (s.calls a)) : ¬ Ready s.mailbox (s.calls a) := by
  -- whoever waits without being runnable is still on the queue
  have hqueued : ∀ b, Waits (s.calls b) → b ∈ tasks s.mailbox.modifyQueue := by
    intro b hb
    cases hc : s.calls b with
    | none => rw [hc] at hb; cases hb
    | some cs =>
      have hr := quiet b cs hc
      rw [hc] at hb
      cases cs <;> simp_all [Waits,CallState.entryFlag,Mailbox.runnable]
  intro hr
  obtain ⟨w,hw,rfl⟩ := List.mem_map.mp (hqueued a waits)
  obtain ⟨b,hb,hbq⟩ := hh ⟨w,hw,hr⟩
  exact hbq (hqueued b hb)

/-- In every run that loses no wake-up this way, nobody is left asleep on a condition that
holds. -/
theorem noLostWakeUp_of_kept (h : Run step (create owner sig) tr s)
    (kept : ∀ x ∈ tr, ¬ LosesWakeUp x.1 x.2) : NoLostWakeUp s := by
  intro running quiet
  have hh := handedOn_of_run h kept
  obtain ⟨hlow,hhigh⟩ := (bounded_of_run h).1
  refine ⟨fun a ha => ?_,fun a x head ha => ?_⟩
  · have hr := hh.unready quiet (a := a) (by rw [ha]; rfl)
    rw [ha] at hr
    by_contra hne
    exact hr (.inr hne)
  · have hr := hh.unready quiet (a := a) (by rw [ha]; rfl)
    rw [ha] at hr
    have hfull : ¬ s.mailbox.messageCount < s.mailbox.messageMax := fun hlt => hr (.inr hlt)
    omega

/-- A receiver goes to sleep before the message comes; the wake-up of the add reaches it. -/
theorem noLostWakeUp_of_handover :
    ∃ tr s, Run step (create 1 fun _ => false : MailboxSystem (Fin 2) Unit) tr s ∧
      s.mailbox.stopped = 0 ∧ NoLostWakeUp s := by
  obtain ⟨tr,s,hrun,htest⟩ := exists_run_of_execute step
    (create 1 fun _ => false : MailboxSystem (Fin 2) Unit)
    [.invoke 0 (.remove true),.run 0,.invoke 1 (.add () false false),.run 1,.run 0]
    (fun tr s => decide (s.mailbox.stopped = 0) && tr.all fun x =>
      decide (∀ a, x.2 = .run a → Waits (x.1.calls a) → x.1.mailbox.modifyQueue = []))
    (by decide)
  simp only [Bool.and_eq_true,decide_eq_true_eq,List.all_eq_true] at htest
  refine ⟨tr,s,hrun,htest.1,noLostWakeUp_of_kept hrun ?_⟩
  rintro x hx ⟨a,hact,hwaits,-,-,-,w,hw,-⟩
  rw [htest.2 x hx a hact hwaits] at hw
  cases hw

/-- The condition leaves out nothing harmless: a step that loses a wake-up leaves a sleeper
queued that could go on, with no wake-up outstanding for anybody. -/
theorem lost_of_losesWakeUp {s s' : MailboxSystem α μ} {act : Action α μ}
    (lost : LosesWakeUp s act) (hs : Stepped s act s') : ¬ HandedOn s' := by
  obtain ⟨a,rfl,waits,unready,quiet,last,w,hw,hr⟩ := lost
  cases hs with
  | @run _ cs m p called runnable _ locked =>
    have hwoken := woken_of_runnable called (called ▸ waits) runnable quiet
    have hwa : w.task ≠ a := fun he => hwoken.2 (he ▸ List.mem_map.mpr ⟨w,hw,rfl⟩)
    rw [called] at unready waits
    obtain ⟨rfl,hp⟩ := again_of_unready locked waits unready quiet
    intro hh
    have hr' : Ready (s.mailbox.requeue ⟨a,true⟩) (s.calls w.task) :=
      (ready_congr rfl rfl rfl _).mpr hr
    obtain ⟨b,hb,hbq⟩ := hh ⟨w,by simp [Mailbox.requeue,enqueue,hwoken.2,hw],by
      simpa [Function.update_of_ne hwa] using hr'⟩
    have hba : b ≠ a := by
      rintro rfl
      exact hbq (by simp [Mailbox.requeue])
    have hb' : entryFlag (s.calls b) = some true := by
      simpa [Function.update_of_ne hba] using hb
    exact hba (last b ⟨hb',fun hm => hbq (by simp [Mailbox.requeue,hm])⟩)

/-- Sixty-four receivers (0 to 63) sleep on the empty mailbox. Thirty-two adds fill it and wake
the first half of them; a blocking sender (65) goes to sleep behind the second half, which
thirty-two removes then wake. All receivers find the mailbox empty again and go back to the
tail. -/
def lostWakeUpActions : List (Action (Fin 67) Unit) :=
  let receivers := (List.finRange 64).map (Fin.castLE (by decide : 64 ≤ 67))
  receivers.flatMap (fun r => [.invoke r (.remove true),.run r]) ++
  (List.replicate 32 [.invoke 64 (.add () false false),.run 64]).flatten ++
  [.invoke 65 (.add () true false),.run 65] ++
  (List.replicate 32 [.invoke 66 (.remove false),.run 66]).flatten ++
  receivers.map .run

/-- The sender sleeps on, the mailbox is empty, and nothing can run. -/
def lostWakeUpTest (s : MailboxSystem (Fin 67) Unit) : Bool :=
  decide (s.mailbox.stopped = 0) &&
  (List.finRange 67).all (fun a =>
    (s.calls a).all fun cs => !s.mailbox.runnable a (s.signalPending a) cs) &&
  decide (s.calls 65 = some (.addWaiting () false)) &&
  decide (s.mailbox.messageCount = 0 ∧ s.mailbox.messageMax = 32)

set_option maxRecDepth 10000 in
theorem exists_lost_wakeUp :
    ∃ (tr : List (MailboxSystem (Fin 67) Unit × Action (Fin 67) Unit)) (s : _),
      Run step (create 1 fun _ => false) tr s ∧ ¬ NoLostWakeUp s := by
  obtain ⟨tr,s,hrun,htest⟩ := exists_run_of_execute step (create 1 fun _ => false)
    lostWakeUpActions (fun _ s => lostWakeUpTest s) (by decide +kernel)
  refine ⟨tr,s,hrun,fun hno => ?_⟩
  simp only [lostWakeUpTest,Bool.and_eq_true,decide_eq_true_eq,List.all_eq_true,
    List.mem_finRange,forall_const] at htest
  obtain ⟨⟨⟨running,hquiet⟩,hsender⟩,hcount,hmax⟩ := htest
  have quiet : Quiescent s := by
    intro a cs hc
    have ha := hquiet a
    rw [hc] at ha
    simpa using ha
  have hfull := (hno running quiet).2 65 () false hsender
  omega

end ProcessMessagePassing.MailboxSystem
