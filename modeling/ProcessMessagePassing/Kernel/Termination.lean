import ProcessMessagePassing.Concurrency.Termination
import ProcessMessagePassing.Kernel.Projection

/-! The threads of the module cannot run for ever on their own. Every step of a thread brings its
call, its exit or its deletion nearer to the end, but for that of a woken sleeper that goes back to
sleep, and going back to sleep wakes nobody. -/
namespace ProcessMessagePassing
open Concurrency Concurrency.WaitQueue HashTable

/-- The sections that a caller has still to go through when every wait is over at once. -/
def CallState.work : CallState MessagePtr → ℕ
  | .addMessage _ _ _ => 2
  | .addWaiting _ _ => 1
  | .removeMessage _ => 2
  | .removeWaiting => 1
  | .stop _ => 1
  | .claim => 1
  | .unclaim => 1
  | .destroy => 6
  | .flush => 5
  | .flushWaiting => 4
  | .awaitUnclaimed => 3
  | .awaitingUnclaimed => 2
  | .free => 1

/-- The steps that a deletion thread has before it. -/
def DeletionPc.work : DeletionPc → ℕ
  | .start => 9
  | .waitExit _ => 8
  | .unlink _ => 7
  | .destroying cs => cs.work
  | .done => 0

/-- The steps of a task after it has come back from its mailbox function, with those of the
deletion thread it may start. -/
def Cont.work : Cont → ℕ
  | .claimed _ _ => 7
  | .refused => 0
  | .added => 1
  | .removed _ => 4
  | .putBack => 1
  | .stopped => 1
  | .unclaimed _ => 0
  | .delivered _ => 1
  | .hook _ => 13

/-- The steps that a task has before it. -/
def Pc.work : Pc → ℕ
  | .absent => 0
  | .user _ => 0
  | .validate _ _ => 10
  | .lookup _ _ => 9
  | .onMailbox _ cs k => cs.work + k.work
  | .checkExiting _ _ => 7
  | .createMessage _ _ _ => 4
  | .copyCount _ _ _ => 3
  | .copyToUser _ _ _ => 4
  | .destroyMessage _ => 1
  | .exitHook => 16
  | .removeLookup _ => 15
  | .startDeletion _ _ => 13
  | .realExit _ => 3
  | .decrementLive => 2
  | .die => 1
  | .zombie => 0

namespace Mailbox

/-- The caller went to sleep and has been taken off the queue. -/
def woken (m : Mailbox Actor MessagePtr) (a : Actor) : CallState MessagePtr → Bool
  | .addWaiting _ _ => decide (a ∉ tasks m.modifyQueue)
  | .removeWaiting => decide (a ∉ tasks m.modifyQueue)
  | .flushWaiting => decide (a ∉ tasks m.modifyQueue)
  | .awaitingUnclaimed => decide (a ∉ tasks m.dereferenceQueue)
  | _ => false

/-- The caller goes back to sleep and changes nothing else. -/
structure SleepsAgain (a : Actor) (m : Mailbox Actor MessagePtr) (cs : CallState MessagePtr)
    (m' : Mailbox Actor MessagePtr) : Prop where
  was : m.woken a cs = true
  sleeps : m'.woken a cs = false
  others : ∀ b cs', b ≠ a → m'.woken b cs' = m.woken b cs'

variable {a b : Actor} {sig : Bool} {m m' : Mailbox Actor MessagePtr} {cs cs' : CallState MessagePtr}
  {pr : Progress MessagePtr}

lemma woken_requeue (w : Waiter Actor) (cs : CallState MessagePtr) (h : b ≠ w.task) :
    (m.requeue w).woken b cs = m.woken b cs := by
  cases cs with
  | addWaiting | removeWaiting | flushWaiting => simp [woken,requeue,h]
  | _ => rfl

lemma woken_awaiting (w : Waiter Actor) (cs : CallState MessagePtr) (h : b ≠ w.task) :
    woken { m with dereferenceQueue := enqueue w m.dereferenceQueue } b cs = m.woken b cs := by
  cases cs with
  | awaitingUnclaimed => exact decide_eq_decide.mpr (by simp [h])
  | _ => rfl

/-- A caller that stays inside its function gets on with it, or goes back to sleep. -/
lemma Locked.work_lt (h : Locked a sig m cs m' pr) (runnable : m.runnable a sig cs = true)
    (stays : pr.callState = some cs') :
    cs'.work < cs.work ∨ cs' = cs ∧ SleepsAgain a m cs m' := by
  cases h with
  | addSleep | removeSleep | destroyStop =>
    cases stays
    exact .inl (Nat.lt_succ_self _)
  | addAgain running full quiet | removeAgain running empty quiet =>
    cases stays
    rw [quiet] at runnable
    exact .inr ⟨rfl,runnable,by simp [woken,requeue],fun b cs' hb => woken_requeue _ cs' hb⟩
  | flushSleep flushing busy quiet =>
    cases stays
    rcases flushing with rfl | rfl
    · exact .inl (Nat.lt_succ_self _)
    · rw [quiet] at runnable
      exact .inr ⟨rfl,runnable,by simp [woken,requeue],fun b cs' hb => woken_requeue _ cs' hb⟩
  | flushNow flushing =>
    cases stays
    rcases flushing with rfl | rfl <;> exact .inl (by decide)
  | unclaimedSleep awaiting busy quiet =>
    cases stays
    rcases awaiting with rfl | rfl
    · exact .inl (Nat.lt_succ_self _)
    · rw [quiet] at runnable
      exact .inr ⟨rfl,runnable,by simp [woken],fun b cs' hb => woken_awaiting _ cs' hb⟩
  | unclaimedNow awaiting =>
    cases stays
    rcases awaiting with rfl | rfl <;> exact .inl (by decide)
  | _ => cases stays

end Mailbox

lemma CallState.work_pos (cs : CallState MessagePtr) : 0 < cs.work := by
  cases cs <;> exact Nat.le_of_ble_eq_true rfl

lemma work_begin (m : ℕ) (c : Syscall) : (c.begin m).work ≤ 6 := by
  cases c <;> exact Nat.le_of_ble_eq_true rfl

/-- A task that comes back from a mailbox function has the rest of its call before it. -/
lemma work_resume (m : ℕ) (r : Ret MessagePtr) (k : Cont) : (k.resume m r).work ≤ k.work := by
  cases k with
  | claimed fresh c =>
    cases fresh with
    | true => exact (work_begin m c).trans (Nat.le_succ 6)
    | false => exact Nat.le_refl _
  | removed ptrs => cases r <;> exact Nat.le_of_ble_eq_true rfl
  | _ => exact Nat.le_refl _

namespace System
variable {hash32 : Pid → ℕ} {sig : Actor → Bool} {s s' t : System} {act : Action} {a b : Actor}
  {tr tr' : List (System × Action)}

/-- The steps that a thread has before it. -/
def work (s : System) : Actor → ℕ
  | .task p => (s.pc p).work
  | .kthread k => ((s.deletions k).map fun d => d.pc.work).getD 0

/-- One for a sleeper that has been woken and has not run yet. -/
def turns (s : System) (a : Actor) : ℕ :=
  ((s.call a).map fun (m,cs) => if (s.mailboxes m).woken a cs then 1 else 0).getD 0

/-- The step is one of a deletion thread that finds its process still alive, and changes nothing. -/
def polls (s : System) : Action → Bool
  | .runDeletion k _ =>
    match s.deletions k with
    | some ⟨_,.waitExit pid⟩ => s.processes.isProcessValid pid
    | _ => false
  | _ => false

/-- The step is one of a thread, but not a poll. -/
def Works (s : System) (act : Action) : Prop := act.actor.isSome = true ∧ s.polls act = false

/-- What every step of the threads takes something from. -/
noncomputable def remaining (s : System) : ℕ :=
  total s.work * total s.work + total s.turns

lemma work_kthread {k : ℕ} {d : DeletionThread} (h : s.deletions k = some d) :
    s.work (.kthread k) = d.pc.work := by simp [work,h]

lemma work_setPc (s : System) (p : Pid) (c : Pc) :
    (s.setPc p c).work = Function.update s.work (.task p) c.work := by
  funext a
  cases a with
  | task q =>
    by_cases hq : q = p
    · subst q
      rw [Function.update_self]
      exact congrArg Pc.work (setPc_self s p c)
    · rw [Function.update_of_ne (fun he => hq (Actor.task.inj he))]
      exact congrArg Pc.work (Function.update_of_ne hq _ _)
  | kthread k => exact (Function.update_of_ne (by simp) _ _).symm

lemma work_setDeletion (s : System) (k : ℕ) (d : DeletionThread) :
    (s.setDeletion k d).work = Function.update s.work (.kthread k) d.pc.work := by
  funext a
  cases a with
  | task q => exact (Function.update_of_ne (by simp) _ _).symm
  | kthread n =>
    by_cases hn : n = k
    · subst n
      rw [Function.update_self]
      exact work_kthread (Function.update_self _ _ _)
    · rw [Function.update_of_ne (fun he => hn (Actor.kthread.inj he))]
      exact congrArg (fun o => (Option.map (fun d : DeletionThread => d.pc.work) o).getD 0)
        (Function.update_of_ne hn _ _)

lemma turns_of_call {m : ℕ} {cs : CallState MessagePtr} (called : s.call a = some (m,cs)) :
    s.turns a = if (s.mailboxes m).woken a cs then 1 else 0 := by simp [turns,called]

lemma turns_le_work (s : System) (a : Actor) : s.turns a ≤ s.work a := by
  cases hcall : s.call a with
  | none => simp [turns,hcall]
  | some c =>
    obtain ⟨m,cs⟩ := c
    have hwork : cs.work ≤ s.work a := by
      cases a with
      | task p =>
        obtain ⟨k,hpc⟩ := Pc.call_eq hcall
        simp [work,hpc,Pc.work]
      | kthread k =>
        obtain ⟨d,hd,hdcall⟩ := Option.bind_eq_some_iff.mp hcall
        obtain rfl := d.call_eq hdcall
        rw [work_kthread hd]
        exact Nat.le_refl _
    have hpos := cs.work_pos
    rw [turns_of_call hcall]
    split_ifs <;> omega

/-- A step of the thread `a`, by what it does to the measure. -/
inductive WorkStep (s s' : System) (a : Actor) : Prop
  | goesOn {w} (work : s'.work = Function.update s.work a w) (less : w < s.work a)
  | starts {k w} (new : s.work (.kthread k) = 0) (other : a ≠ .kthread k)
      (work : s'.work = Function.update (Function.update s.work (.kthread k) 9) a w)
      (less : w + 9 < s.work a)
  | sleepsAgain (work : s'.work = s.work) (woken : s.turns a = 1) (asleep : s'.turns a = 0)
      (others : ∀ b, b ≠ a → s'.turns b = s.turns b)

/-- A sleeper that goes back to sleep takes its turn and leaves the others theirs. -/
lemma workStep_sleepsAgain {m : ℕ} {cs : CallState MessagePtr} {m' : Mailbox Actor MessagePtr}
    (called : s.call a = some (m,cs)) (again : Mailbox.SleepsAgain a (s.mailboxes m) cs m')
    (mailboxes : s'.mailboxes = (s.setMailbox m m').mailboxes) (calls : s'.call = s.call)
    (work : s'.work = s.work) : WorkStep s s' a := by
  refine .sleepsAgain work ?_ ?_ ?_
  · rw [turns_of_call called,again.was]
    rfl
  · have hcalled : s'.call a = some (m,cs) := by rw [calls,called]
    rw [turns_of_call hcalled,mailboxes,setMailbox_self,again.sleeps]
    rfl
  · intro b hb
    cases hcall : s.call b with
    | none => simp [turns,calls,hcall]
    | some c =>
      obtain ⟨n,cs'⟩ := c
      have hcall' : s'.call b = some (n,cs') := by rw [calls,hcall]
      rw [turns_of_call hcall,turns_of_call hcall',mailboxes]
      by_cases hn : n = m
      · subst n
        rw [setMailbox_self,again.others b cs' hb]
      · rw [setMailbox_of_ne s hn]

lemma workStep_setPc {p : Pid} {c c' : Pc} (pc : s.pc p = c) (less : c'.work < c.work)
    (work : t.work = s.work) : WorkStep s (t.setPc p c') (.task p) := by
  refine .goesOn (w := c'.work) ?_ ?_
  · rw [work_setPc,work]
  · change c'.work < (s.pc p).work
    rwa [pc]

lemma workStep_setDeletion {k : ℕ} {d d' : DeletionThread} (deletion : s.deletions k = some d)
    (less : d'.pc.work < d.pc.work) (work : t.work = s.work) :
    WorkStep s (t.setDeletion k d') (.kthread k) := by
  refine .goesOn (w := d'.pc.work) ?_ ?_
  · rw [work_setDeletion,work]
  · rwa [work_kthread deletion]

/-- A task in a mailbox function stays there. -/
lemma workStep_stays {p : Pid} {m : ℕ} {cs cs' : CallState MessagePtr} {k : Cont}
    {m' : Mailbox Actor MessagePtr} {pr : Progress MessagePtr} (pc : s.pc p = .onMailbox m cs k)
    (locked : s.Section (.task p) m cs m' pr) (stays : pr.callState = some cs') :
    WorkStep s ((s.setMailbox m m').setPc p (.onMailbox m cs' k)) (.task p) := by
  rcases locked.2.work_lt locked.1 stays with hless | ⟨rfl,again⟩
  · exact workStep_setPc pc (Nat.add_lt_add_right hless _) rfl
  · refine workStep_sleepsAgain (call_task pc) again rfl ?_ ?_
    · funext b
      by_cases hb : b = .task p
      · rw [hb,call_setPc_self,call_task pc]
      · exact call_setPc_of_ne _ _ hb
    · rw [work_setPc]
      exact Function.update_eq_self_iff.mpr (congrArg Pc.work pc).symm

/-- A deletion thread stays in `mailbox_destroy`. -/
lemma workStep_destroyStays {k m : ℕ} {cs cs' : CallState MessagePtr}
    {m' : Mailbox Actor MessagePtr} (deletion : s.deletions k = some ⟨m,.destroying cs⟩)
    (locked : s.Section (.kthread k) m cs m' (.next cs')) :
    WorkStep s ((s.setMailbox m m').setDeletion k ⟨m,.destroying cs'⟩) (.kthread k) := by
  rcases locked.2.work_lt locked.1 rfl with hless | ⟨rfl,again⟩
  · exact workStep_setDeletion deletion hless rfl
  · refine workStep_sleepsAgain (call_kthread deletion) again rfl ?_ ?_
    · funext b
      by_cases hb : b = .kthread k
      · rw [hb,call_setDeletion_self,call_kthread deletion]
      · exact call_setDeletion_of_ne _ _ hb
    · rw [work_setDeletion]
      exact Function.update_eq_self_iff.mpr (work_kthread deletion).symm

theorem Stepped.workStep (h : Stepped hash32 s act s') (hc : Consistent hash32 s)
    (actor : act.actor = some a) (busy : s.polls act = false) : WorkStep s s' a := by
  cases h with
  | newProcess | clone | enter | exit | exitGroup | fatalSignal | killed | reap | signal
  | handle => cases actor
  | valid pc | invalid pc | found pc | created pc | outOfMemory pc | refused pc | messageCreated pc
  | messageFailed pc | countFault pc | copied pc | copyFault pc | destroyed pc | lastThread pc
  | otherThread pc | removalFound pc | removalMissing pc | deletionFailed pc | realExit pc
  | decrementLive pc | die pc =>
    cases actor
    exact workStep_setPc pc (Nat.le_of_ble_eq_true rfl) rfl
  | granted pc =>
    cases actor
    exact workStep_setPc pc (Nat.lt_succ_of_le (work_begin _ _)) rfl
  | countCopied pc =>
    cases actor
    refine workStep_setPc pc ?_ rfl
    split <;> exact Nat.le_of_ble_eq_true rfl
  | stays pc locked stays =>
    cases actor
    exact workStep_stays pc locked stays
  | @returned p o m cs k m' r pc locked =>
    cases actor
    refine workStep_setPc pc ?_ rfl
    exact Nat.lt_of_le_of_lt (work_resume m r k) (Nat.lt_add_of_pos_left cs.work_pos)
  | @deletionStarted p o m group pc =>
    cases actor
    have hnew : s.deletions s.deletionsStarted = none := by
      by_contra hne
      exact Nat.lt_irrefl _ (hc.deletions_lt _ hne)
    refine .starts (k := s.deletionsStarted) (w := 3) ?_ (by simp) ?_ ?_
    · simp [work,hnew]
    · rw [work_setPc]
      exact congrArg (fun f => Function.update f (Actor.task p) 3)
        (work_setDeletion s s.deletionsStarted ⟨m,.start⟩)
    · change 3 + 9 < (s.pc p).work
      rw [pc]
      exact Nat.le_of_ble_eq_true rfl
  | stillValid deletion valid => simp [polls,deletion,valid] at busy
  | ownerRead deletion | exited deletion | unlinked deletion =>
    cases actor
    exact workStep_setDeletion deletion (Nat.le_of_ble_eq_true rfl) rfl
  | destroyStays deletion locked =>
    cases actor
    exact workStep_destroyStays deletion locked
  | flushed deletion locked =>
    cases actor
    rcases locked.2.work_lt locked.1 rfl with hless | ⟨rfl,again⟩
    · exact workStep_setDeletion deletion hless rfl
    · exact absurd again.was Bool.false_ne_true
  | deleted deletion locked =>
    cases actor
    exact workStep_setDeletion deletion (CallState.work_pos _) rfl

/-- Only finitely many threads have anything to do. -/
def FinitelyBusy (s : System) : Prop := s.work.support.Finite

lemma finite_update {f : Actor → ℕ} (h : f.support.Finite) (a : Actor) (w : ℕ) :
    (Function.update f a w).support.Finite := by
  refine (h.insert a).subset fun b hb => ?_
  by_cases hba : b = a
  · exact .inl hba
  · refine .inr ?_
    rwa [Function.mem_support,Function.update_of_ne hba] at hb

lemma FinitelyBusy.setPc (h : FinitelyBusy s) (work : t.work = s.work) (p : Pid) (c : Pc) :
    FinitelyBusy (t.setPc p c) := by
  unfold FinitelyBusy
  rw [work_setPc,work]
  exact finite_update h _ _

lemma FinitelyBusy.setDeletion (h : FinitelyBusy s) (work : t.work = s.work) (k : ℕ)
    (d : DeletionThread) : FinitelyBusy (t.setDeletion k d) := by
  unfold FinitelyBusy
  rw [work_setDeletion,work]
  exact finite_update h _ _

theorem FinitelyBusy.stepped (h : FinitelyBusy s) (hs : Stepped hash32 s act s') :
    FinitelyBusy s' := by
  cases hs with
  | fatalSignal | signal | handle | stillValid => exact h
  | ownerRead | exited | unlinked | destroyStays | flushed | deleted =>
    exact h.setDeletion rfl _ _
  | @deletionStarted p o m =>
    have hstarted := h.setDeletion rfl s.deletionsStarted ⟨m,.start⟩
    exact hstarted.setPc rfl _ _
  | _ => exact h.setPc rfl _ _

lemma WorkStep.falls (h : WorkStep s s' a) (finite : FinitelyBusy s) (finite' : FinitelyBusy s') :
    s'.remaining < s.remaining := by
  refine square_falls (total_le finite' s'.turns_le_work) ?_
  cases h with
  | @goesOn w work less =>
    have hsum : total s'.work + s.work a = total s.work + s'.work a :=
      total_of_one finite a fun b hb => by rw [work,Function.update_of_ne hb]
    rw [work,Function.update_self,← work] at hsum
    omega
  | @starts k w new other work less =>
    have hstarted : total (Function.update s.work (.kthread k) 9) + s.work (.kthread k) =
        total s.work + Function.update s.work (.kthread k) 9 (.kthread k) :=
      total_of_one finite _ fun b hb => Function.update_of_ne hb _ _
    have hsum : total s'.work + Function.update s.work (.kthread k) 9 a =
        total (Function.update s.work (.kthread k) 9) + s'.work a := by
      refine total_of_one (finite_update finite _ _) a fun b hb => ?_
      rw [work,Function.update_of_ne hb]
    rw [Function.update_self,new] at hstarted
    rw [Function.update_of_ne other,work,Function.update_self,← work] at hsum
    omega
  | sleepsAgain work woken asleep others =>
    have hturns : s.turns.support.Finite := by
      refine finite.subset fun b hb => ?_
      have hpos : 0 < s.turns b := Nat.pos_of_ne_zero hb
      exact Nat.ne_of_gt (Nat.lt_of_lt_of_le hpos (s.turns_le_work b))
    have hsum := total_of_one hturns a others
    rw [woken,asleep] at hsum
    rw [work]
    omega

/-- What the steps of the threads keep. -/
structure Bounded (hash32 : Pid → ℕ) (s : System) : Prop where
  consistent : Consistent hash32 s
  finite : FinitelyBusy s

lemma Bounded.stepped (h : Bounded hash32 s) (hs : Stepped hash32 s act s') : Bounded hash32 s' :=
  ⟨h.consistent.stepped hs,h.finite.stepped hs⟩

theorem bounded_of_run (h : Run (step hash32) (initial sig) tr s) : Bounded hash32 s := by
  refine h.invariant ⟨consistent_initial sig,?_⟩ fun _ _ _ hs ht => hs.stepped (step_stepped ht)
  have hnone : (initial sig).work.support = ∅ := by
    ext a
    cases a <;> simp [work,initial,Pc.work]
  unfold FinitelyBusy
  rw [hnone]
  exact Set.finite_empty

theorem settles (hash32 : Pid → ℕ) : Settles (step hash32) Works (Bounded hash32) remaining where
  keep _ _ _ hs _ ht := hs.stepped (step_stepped ht)
  falls s act s' hs hw ht := by
    obtain ⟨a,ha⟩ := Option.isSome_iff_exists.mp hw.1
    have hstep := (step_stepped ht).workStep hs.consistent ha hw.2
    exact hstep.falls hs.finite (hs.stepped (step_stepped ht)).finite

/-- From any reachable state on, the threads alone take a bounded number of steps, in whatever order
they run, and all of them together come to rest. -/
theorem threads_come_to_rest (h : Run (step hash32) (initial sig) tr s) :
    (∀ tr' s', Run (step hash32) s tr' s' → (∀ x ∈ tr', x.1.Works x.2) →
      tr'.length + s'.remaining ≤ s.remaining) ∧
    ∃ tr' s', Run (step hash32) s tr' s' ∧ (∀ x ∈ tr', x.1.Works x.2) ∧
      AtRest (step hash32) Works s' := by
  have hbounded := bounded_of_run h
  refine ⟨fun tr' s' hrun hworks => ?_,(settles hash32).comes_to_rest hbounded⟩
  exact ((settles hash32).length_le hrun hbounded hworks).2

/-- A message is under way to process 1001, and the run that brings the threads to rest is bounded by
what remained to be done. -/
theorem threads_come_to_rest_after_send : ∃ (tr tr' : List (System × Action)) (s s' : System),
    Run (step goldenHash32) (initial fun _ => false) tr s ∧
      s.pc 1001 = .validate 1001 (.sendMessage 1001 0 false) ∧
      Run (step goldenHash32) s tr' s' ∧ tr'.length + s'.remaining ≤ s.remaining ∧
      AtRest (step goldenHash32) Works s' := by
  obtain ⟨tr,s,hrun,htest⟩ := exists_run_of_execute (step goldenHash32) (initial fun _ => false)
    [.newProcess 1001 1000,.enter 1001 (.sendMessage 1001 0 false)]
    (fun _ s => decide (s.pc 1001 = .validate 1001 (.sendMessage 1001 0 false))) (by decide +kernel)
  obtain ⟨hbound,tr',s',hrun',hworks,hrest⟩ := threads_come_to_rest hrun
  exact ⟨tr,tr',s,s',hrun,of_decide_eq_true htest,hrun',hbound tr' s' hrun' hworks,hrest⟩

end System
end ProcessMessagePassing
