import ProcessMessagePassing.Kernel.Deletion
import ProcessMessagePassing.Kernel.Termination
import ProcessMessagePassing.Kernel.Unclaimed
import ProcessMessagePassing.Mailbox.StopCascade

/-! Where the threads come to rest. When none of them can go on, nobody has the lock of the hash
table, the tasks are in user mode or asleep on a mailbox that runs, and the deletion threads are
done or watch a process that is alive. -/
namespace ProcessMessagePassing
open Concurrency Concurrency.WaitQueue HashTable
open Concurrency.Registry (Role)

/-- The task is not in the kernel. -/
def Pc.outside : Pc → Bool
  | .absent => true
  | .user _ => true
  | .zombie => true
  | _ => false

lemma not_locks_of_outside {c : Pc} (h : c.outside = true) (n : ℕ) : ¬ c.role.Locks n := by
  cases c with
  | absent | user | zombie => exact id
  | _ => cases h

lemma not_holdsClaim_of_outside {c : Pc} (h : c.outside = true) (n : ℕ) : ¬ c.HoldsClaim n := by
  cases c with
  | absent | user | zombie => exact id
  | _ => cases h

namespace System
variable {hash32 : Pid → ℕ} {sig : Actor → Bool} {s s' : System} {act : Action}
  {tr tr' : List (System × Action)} {p : Pid} {m : ℕ}

/-- The work of the threads sends no signals. -/
lemma not_signals_of_works (h : s.Works act) : act.signalsDeletion = false := by
  cases act with
  | signal a => cases h.1
  | _ => rfl

/-- The task sleeps in a send or a receive on the mailbox. -/
structure AsleepOn (s : System) (p : Pid) (m : ℕ) : Prop where
  pc : ∃ cs k, s.pc p = .onMailbox m cs k ∧ cs.entryFlag = some true
  queued : Actor.task p ∈ tasks (s.mailboxes m).modifyQueue
  quiet : s.signalPending (.task p) = false

/-- Why a task cannot take a step. -/
inductive Blocked (s : System) (p : Pid) : Prop
  | outside (pc : (s.pc p).outside = true)
  | lock (locked : s.tableLock ≠ none) (free : ∀ n, ¬ (s.pc p).role.Locks n ∧ ¬ (s.pc p).HoldsClaim n)
  | asleep {m cs k} (pc : s.pc p = .onMailbox m cs k)
      (stuck : (s.mailboxes m).runnable (.task p) (s.signalPending (.task p)) cs = false)

lemma blocked_of_rest (rest : AtRest (step hash32) Works s) (p : Pid) : Blocked s p := by
  have hnone : ∀ o, s.runTask hash32 p o = none := fun o => rest (.run p o) ⟨rfl,rfl⟩
  have hclear := hnone .clear
  unfold runTask at hclear
  cases hpc : s.pc p with
  | absent | user | zombie => exact .outside (by rw [hpc]; rfl)
  | lookup pid c | removeLookup group =>
    rw [hpc] at hclear
    dsimp only at hclear
    split_ifs at hclear with hlock
    exact .lock hlock fun n => by rw [hpc]; exact ⟨id,id⟩
  | onMailbox m cs k =>
    rw [hpc] at hclear
    dsimp only at hclear
    split_ifs at hclear with hrun
    exact .asleep hpc (by simpa using hrun)
  | checkExiting m c =>
    rw [hpc] at hclear
    dsimp only at hclear
    split_ifs at hclear
  | _ =>
    rw [hpc] at hclear
    cases hclear

theorem lockInUse_of_run (h : Run (step hash32) (initial sig) tr s) :
    Registry.LockInUse s.registry := by
  induction h with
  | refl =>
    intro p hp
    cases hp
  | snoc prior taken ih =>
    rcases (registry_stepped (consistent_of_run prior) False.elim (step_stepped taken)
      fun _ _ => trivial : _ ∨ Registry.Step False (fun _ _ => True) _ _) with he | hstep
    · rwa [he]
    · exact ih.step hstep

/-- A task that sleeps does so in a send or a receive. -/
lemma sleeps_of_stuck {p : Pid} {m : ℕ} {cs : CallState MessagePtr} {k : Cont} (fits : k.Fits cs)
    (stuck : (s.mailboxes m).runnable (.task p) (s.signalPending (.task p)) cs = false) :
    cs.entryFlag = some true ∧ Actor.task p ∈ tasks (s.mailboxes m).modifyQueue ∧
      s.signalPending (.task p) = false := by
  cases cs with
  | addWaiting | removeWaiting =>
    simp only [Mailbox.runnable,Bool.or_eq_false_iff,decide_eq_false_iff_not,not_not] at stuck
    exact ⟨rfl,stuck.2,stuck.1⟩
  | flushWaiting | awaitingUnclaimed =>
    cases k with
    | added | putBack => cases fits.choose_spec
    | removed => rcases fits with ⟨block,h⟩ | h <;> cases h
    | _ => cases fits
  | _ => cases stuck

lemma Blocked.asleepOn (hc : Consistent hash32 s) {p : Pid} {m : ℕ} {cs : CallState MessagePtr}
    {k : Cont} (pc : s.pc p = .onMailbox m cs k)
    (stuck : (s.mailboxes m).runnable (.task p) (s.signalPending (.task p)) cs = false) :
    s.AsleepOn p m := by
  have hfits := hc.fits p
  rw [pc] at hfits
  obtain ⟨hflag,hqueued,hquiet⟩ := sleeps_of_stuck hfits stuck
  exact ⟨⟨cs,k,pc,hflag⟩,hqueued,hquiet⟩

/-- A sleeper has no lock. -/
lemma AsleepOn.not_locks (h : s.AsleepOn p m) (hc : Consistent hash32 s) (n : ℕ) :
    ¬ (s.pc p).role.Locks n := by
  obtain ⟨cs,k,hpc,hflag⟩ := h.pc
  have hfits := hc.fits p
  rw [hpc] at hfits ⊢
  cases k with
  | claimed | refused | hook =>
    obtain rfl : cs = _ := hfits
    cases hflag
  | _ => exact id

lemma unlocked_of_rest (hc : Consistent hash32 s) (inUse : Registry.LockInUse s.registry)
    (rest : AtRest (step hash32) Works s) : s.tableLock = none := by
  cases hlock : s.tableLock with
  | none => rfl
  | some p =>
    obtain ⟨n,hn⟩ := inUse p hlock
    have hn' : (s.pc p).role.Locks n := hn
    cases blocked_of_rest rest p with
    | outside hpc => exact absurd hn' (not_locks_of_outside hpc n)
    | lock locked free => exact absurd hn' (free n).1
    | asleep pc stuck => exact absurd hn' ((Blocked.asleepOn hc pc stuck).not_locks hc n)

/-- Why a deletion thread cannot take a step that does anything. -/
inductive DeletionBlocked (s : System) (k : ℕ) (m : ℕ) : DeletionPc → Prop
  | done : DeletionBlocked s k m .done
  | waits {pid} (valid : s.processes.isProcessValid pid = true) : DeletionBlocked s k m (.waitExit pid)
  | asleep {cs} (sleeps : cs = .flushWaiting ∨ cs = .awaitingUnclaimed)
      (stuck : (s.mailboxes m).runnable (.kthread k) (s.signalPending (.kthread k)) cs = false) :
      DeletionBlocked s k m (.destroying cs)

lemma deletionBlocked_of_rest (hc : Consistent hash32 s) (unlocked : s.tableLock = none)
    (rest : AtRest (step hash32) Works s) {k m : ℕ} {pc : DeletionPc}
    (deletion : s.deletions k = some ⟨m,pc⟩) : DeletionBlocked s k m pc := by
  have hdestroys := hc.destroys k _ deletion
  by_cases hpoll : s.polls (.runDeletion k .clear) = true
  · simp only [polls,deletion] at hpoll
    cases pc with
    | waitExit pid => exact .waits hpoll
    | _ => cases hpoll
  · have hnone := rest (.runDeletion k .clear) ⟨rfl,by simpa using hpoll⟩
    simp only [step,deletion,runDeletionThread] at hnone
    cases pc with
    | done => exact .done
    | start => cases hnone
    | waitExit pid =>
      dsimp only at hnone
      split_ifs at hnone
    | unlink pid =>
      dsimp only at hnone
      rw [if_pos unlocked] at hnone
      cases hnone
    | destroying cs =>
      dsimp only at hnone
      split_ifs at hnone with hrun
      refine .asleep ?_ (by simpa using hrun)
      cases cs with
      | flushWaiting => exact .inl rfl
      | awaitingUnclaimed => exact .inr rfl
      | addWaiting | removeWaiting => exact False.elim hdestroys
      | _ => exact absurd rfl hrun

/-- At rest every mailbox is quiescent. -/
lemma quiescent_of_rest (hc : Consistent hash32 s) (unlocked : s.tableLock = none)
    (rest : AtRest (step hash32) Works s) (m : ℕ) : (s.project m).Quiescent := by
  intro a cs hcs
  have hcall := callsOn_eq_some_iff.mp hcs
  change (s.mailboxes m).runnable a (s.signalPending a) cs = false
  cases a with
  | task p =>
    obtain ⟨k,hpc⟩ := Pc.call_eq hcall
    cases blocked_of_rest rest p with
    | outside h =>
      rw [hpc] at h
      cases h
    | lock locked => exact absurd unlocked locked
    | asleep pc stuck =>
      rw [hpc] at pc
      cases pc
      exact stuck
  | kthread k =>
    obtain ⟨d,hd,hdcall⟩ := Option.bind_eq_some_iff.mp hcall
    obtain rfl := d.call_eq hdcall
    cases deletionBlocked_of_rest hc unlocked rest hd with
    | asleep sleeps stuck => exact stuck

/-- A sleeper has claimed the mailbox it sleeps on, and no other. -/
lemma AsleepOn.holdsClaim_iff (h : s.AsleepOn p m) (hc : Consistent hash32 s) {n : ℕ} :
    (s.pc p).HoldsClaim n ↔ m = n := by
  obtain ⟨cs,k,hpc,hflag⟩ := h.pc
  have hfits := hc.fits p
  rw [hpc] at hfits ⊢
  cases k with
  | claimed | hook =>
    obtain rfl : cs = _ := hfits
    cases hflag
  | _ => exact Iff.rfl

/-- One wake-up has reached everybody when nothing can run. -/
lemma not_asleep_of_cascade {u : MailboxSystem Actor MessagePtr} (waits : MailboxSystem.WaitInvariant u)
    (cascade : MailboxSystem.Cascade u) (still : u.Quiescent) (a : Actor) :
    ¬ MailboxSystem.AsleepInModifyQueue (u.calls a) := by
  intro ha
  have hexclusive : ∀ b, ¬ MailboxSystem.Waits (u.calls b) := by
    intro b hb
    obtain ⟨c,hc,hoff⟩ := cascade.woken _ (still.mem_queue waits hb) rfl
    exact hoff (List.mem_map.mpr ⟨_,still.mem_queue waits hc,rfl⟩)
  obtain ⟨flag,hflag⟩ := Option.ne_none_iff_exists'.mp ha
  cases flag with
  | true => exact hexclusive a hflag
  | false =>
    have hwaiting := cascade.destroyer _ (still.mem_queue waits hflag) rfl
    exact hwaiting (waits.waiting.zero_iff.mpr hexclusive)

/-- A stopped mailbox at rest has no sleepers. -/
lemma running_of_asleep (h : Run (step hash32) (initial sig) tr s) (created : m < s.mailboxesCreated)
    (still : (s.project m).Quiescent) {a : Actor}
    (asleep : MailboxSystem.AsleepInModifyQueue (s.callsOn m a)) : (s.mailboxes m).stopped = 0 := by
  obtain ⟨pending,tr',hrun⟩ := project_run h created
  by_contra hstopped
  exact not_asleep_of_cascade (MailboxSystem.waitInvariant_of_run hrun)
    (MailboxSystem.cascade_of_run hrun hstopped) still a asleep

/-- A mailbox that is being destroyed is stopped. -/
lemma stopped_of_destroying (h : Run (step hash32) (initial sig) tr s) {k : ℕ}
    {cs : CallState MessagePtr} (deletion : s.deletions k = some ⟨m,.destroying cs⟩)
    (sleeps : cs = .flushWaiting ∨ cs = .awaitingUnclaimed) : (s.mailboxes m).stopped ≠ 0 := by
  have hcall : s.call (.kthread k) = some (m,cs) := call_kthread deletion
  obtain ⟨pending,tr',hrun⟩ := project_run h ((inBounds_of_run h).call_lt hcall)
  refine (MailboxSystem.stopInvariant_of_run hrun).destroying (.kthread k) ?_
  have hon : (s.project m).calls (.kthread k) = some cs := callsOn_eq_some_iff.mpr hcall
  rw [hon]
  rcases sleeps with rfl | rfl <;> simp [MailboxSystem.Destroying]

lemma asleepOn_of_rest (hc : Consistent hash32 s) (unlocked : s.tableLock = none)
    (rest : AtRest (step hash32) Works s) (p : Pid) :
    (s.pc p).outside = true ∨ ∃ m, s.AsleepOn p m := by
  cases blocked_of_rest rest p with
  | outside pc => exact .inl pc
  | lock locked => exact absurd unlocked locked
  | asleep pc stuck => exact .inr ⟨_,Blocked.asleepOn hc pc stuck⟩

lemma stopped_of_asleepOn (h : Run (step hash32) (initial sig) tr s)
    (still : (s.project m).Quiescent) (asleep : s.AsleepOn p m) : (s.mailboxes m).stopped = 0 := by
  obtain ⟨cs,k,hpc,hflag⟩ := asleep.pc
  have hcall : s.call (.task p) = some (m,cs) := call_task hpc
  refine running_of_asleep h ((inBounds_of_run h).call_lt hcall) still (a := .task p) ?_
  unfold MailboxSystem.AsleepInModifyQueue
  rw [callsOn_eq_some_iff.mpr hcall,entryFlag_some,hflag]
  exact Option.some_ne_none true

/-- A deletion thread that waits for its mailbox to be unclaimed when the others rest waits for ever:
another one has freed the mailbox. -/
lemma freed_of_awaiting (h : Run (step hash32) (initial sig) tr s)
    (quiet : ∀ k, sig (.kthread k) = false) (silent : ∀ x ∈ tr, x.2.signalsDeletion = false)
    (unlocked : s.tableLock = none) (rest : AtRest (step hash32) Works s) {k : ℕ}
    (deletion : s.deletions k = some ⟨m,.destroying .awaitingUnclaimed⟩) : s.Freed m := by
  have hinv := claimInvariant_of_run h quiet silent
  have hstill := quiescent_of_rest hinv.consistent unlocked rest m
  have hstopped := stopped_of_destroying h deletion (.inr rfl)
  have hcall : s.call (.kthread k) = some (m,.awaitingUnclaimed) := call_kthread deletion
  have hawaited := awaited_of_run h quiet silent m
  -- whoever is on the mailbox without having been woken is on its queue
  have hqueued : ∀ a, s.call a = some (m,.awaitingUnclaimed) →
      a ∈ tasks (s.mailboxes m).dereferenceQueue := by
    intro a ha
    have hstuck := hstill a _ (callsOn_eq_some_iff.mpr ha)
    have hstuck' : (s.mailboxes m).runnable a (s.signalPending a) .awaitingUnclaimed = false := hstuck
    simp only [Mailbox.runnable,Bool.or_eq_false_iff,decide_eq_false_iff_not,not_not] at hstuck'
    exact hstuck'.2
  have hnoClaim : ∀ p, ¬ (s.pc p).HoldsClaim m := by
    intro p hp
    rcases asleepOn_of_rest hinv.consistent unlocked rest p with hout | ⟨n,hn⟩
    · exact not_holdsClaim_of_outside hout m hp
    · obtain rfl := (hn.holdsClaim_iff hinv.consistent).mp hp
      exact hstopped (stopped_of_asleepOn h hstill hn)
  have hcounts : Counts (s.mailboxes m).dereferences s.pc (Pc.HoldsClaim m) :=
    counts_holdsClaim rfl (hinv.registry.counts m)
  have hzero := hcounts.zero_iff.mpr hnoClaim
  have hne : (s.mailboxes m).dereferenceQueue ≠ [] := by
    intro hnil
    have hmem := hqueued _ hcall
    rw [hnil] at hmem
    cases hmem
  rcases hawaited.woken hzero hne with ⟨a,ha,hoff⟩ | ⟨a,ha⟩ | hfreed
  · exact absurd (hqueued a ha) hoff
  · have hstuck := hstill a _ (callsOn_eq_some_iff.mpr ha)
    cases hstuck
  · exact hfreed

/-- Nobody is stuck: the table lock is free, every task is out of the kernel or sleeps in a send or a
receive on a mailbox that has not been stopped, and every deletion thread is done, watches a process
that is alive, or sleeps on a mailbox that another one has freed. -/
structure NobodyStuck (s : System) : Prop where
  unlocked : s.tableLock = none
  tasks : ∀ p, (s.pc p).outside = true ∨
    ∃ m, s.AsleepOn p m ∧ (s.pc p).HoldsClaim m ∧ (s.mailboxes m).stopped = 0
  deletions : ∀ k m pc, s.deletions k = some ⟨m,pc⟩ → pc = .done ∨
    (∃ pid, pc = .waitExit pid ∧ s.processes.isProcessValid pid = true) ∨
    pc = .destroying .awaitingUnclaimed ∧ s.Freed m

theorem nobodyStuck_of_rest (h : Run (step hash32) (initial sig) tr s)
    (quiet : ∀ k, sig (.kthread k) = false) (silent : ∀ x ∈ tr, x.2.signalsDeletion = false)
    (rest : AtRest (step hash32) Works s) : NobodyStuck s := by
  have hc := consistent_of_run h
  have unlocked := unlocked_of_rest hc (lockInUse_of_run h) rest
  refine ⟨unlocked,fun p => ?_,fun k m pc deletion => ?_⟩
  · rcases asleepOn_of_rest hc unlocked rest p with hout | ⟨m,hm⟩
    · exact .inl hout
    · have hstill := quiescent_of_rest hc unlocked rest m
      exact .inr ⟨m,hm,(hm.holdsClaim_iff hc).mpr rfl,stopped_of_asleepOn h hstill hm⟩
  · cases deletionBlocked_of_rest hc unlocked rest deletion with
    | done => exact .inl rfl
    | waits valid => exact .inr (.inl ⟨_,rfl,valid⟩)
    | asleep sleeps stuck =>
      have hstopped := stopped_of_destroying h deletion sleeps
      rcases sleeps with rfl | rfl
      · have hcall : s.call (.kthread k) = some (m,.flushWaiting) := call_kthread deletion
        have hstill := quiescent_of_rest hc unlocked rest m
        refine absurd (running_of_asleep h ((inBounds_of_run h).call_lt hcall) hstill
          (a := .kthread k) ?_) hstopped
        unfold MailboxSystem.AsleepInModifyQueue
        rw [callsOn_eq_some_iff.mpr hcall]
        exact Option.some_ne_none false
      · exact .inr (.inr ⟨rfl,freed_of_awaiting h quiet silent unlocked rest deletion⟩)

/-- However the threads go on from a reachable state until none of them can take a step, but for those
that watch their processes, nobody is stuck then. -/
theorem nobody_stuck_at_rest (h : Run (step hash32) (initial sig) tr s)
    (quiet : ∀ k, sig (.kthread k) = false) (silent : ∀ x ∈ tr, x.2.signalsDeletion = false)
    (run : Run (step hash32) s tr' s') (works : ∀ x ∈ tr', x.1.Works x.2)
    (rest : AtRest (step hash32) Works s') : NobodyStuck s' := by
  refine nobodyStuck_of_rest (h.append run) quiet ?_ rest
  intro x hx
  rcases List.mem_append.mp hx with hx | hx
  · exact silent x hx
  · exact not_signals_of_works (works x hx)

/-- Process 1001 waits for a message and 1002 is about to send it one; the threads go on as they
like. -/
theorem nobody_stuck_after_send : ∃ (tr tr' : List (System × Action)) (s s' : System),
    Run (step goldenHash32) (initial fun _ => false) tr s ∧ (s.mailboxes 0).waiting = 1 ∧
      s.pc 1002 = .validate 1001 (.sendMessage 1001 0 false) ∧
      Run (step goldenHash32) s tr' s' ∧ NobodyStuck s' := by
  obtain ⟨tr,s,hrun,htest⟩ := exists_run_of_execute (step goldenHash32) (initial fun _ => false)
    ([.newProcess 1001 1000,.newProcess 1002 1000,.enter 1001 (.recieveMessage ⟨4,0,4⟩ true)] ++
      runs 1001 4 ++ [.enter 1002 (.sendMessage 1001 0 false)])
    (fun tr s => tr.all (fun x => !x.2.signalsDeletion) && decide ((s.mailboxes 0).waiting = 1 ∧
      s.pc 1002 = .validate 1001 (.sendMessage 1001 0 false))) (by decide +kernel)
  simp only [Bool.and_eq_true,List.all_eq_true,Bool.not_eq_true',decide_eq_true_eq] at htest
  obtain ⟨hsilent,hwaiting,hsend⟩ := htest
  obtain ⟨tr',s',hrun',hworks,hrest⟩ := (settles goldenHash32).comes_to_rest (bounded_of_run hrun)
  exact ⟨tr,tr',s,s',hrun,hwaiting,hsend,hrun',
    nobody_stuck_at_rest hrun (fun _ => rfl) hsilent hrun' hworks hrest⟩

end System
end ProcessMessagePassing
