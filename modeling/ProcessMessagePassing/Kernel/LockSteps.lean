import ProcessMessagePassing.Kernel.Locks

/-! The lock operations of the system. Wherever a thread of the system stands it has a rest of lock
operations, and every step of the system is a run of the threads over the spin locks. -/
namespace ProcessMessagePassing
open Concurrency Locks

namespace Locks

/-- A thread that sleeps in the wait on a queue. -/
def asleep (l : Lock) (k : LockCode) : LockCode :=
  .sleep .waitQueue (.lock l (.waitEvent .waitQueue l k))

end Locks

/-- What is left of a mailbox function, up to what its caller does after an error or after success. -/
def CallState.lockCode (m : ℕ) (error k : LockCode) : CallState MessagePtr → LockCode
  | .addMessage _ _ _ => mailboxAddMessage m error k
  | .addWaiting _ _ => asleep (.modifyQueue m) (afterWait m error k)
  | .removeMessage _ => mailboxRemoveMessage m error k
  | .removeWaiting => asleep (.modifyQueue m) (afterWait m error k)
  | .stop _ => mailboxStop m k
  | .claim => claimMailbox m k
  | .unclaim => unclaimMailbox m k
  | .destroy => mailboxDestroy m k
  | .flush => flushMessages m k
  | .flushWaiting =>
    asleep (.modifyQueue m) (.unlock (.modifyQueue m) (waitUntilMailboxUnclaimed m k))
  | .awaitUnclaimed => waitUntilMailboxUnclaimed m k
  | .awaitingUnclaimed => asleep (.dereferenceQueue m) (.unlock (.dereferenceQueue m) k)
  | .free => k

def Progress.lockCode (m : ℕ) (error k : LockCode) : Progress MessagePtr → LockCode
  | .next cs => cs.lockCode m error k
  | .flushed _ => waitUntilMailboxUnclaimed m k
  | .returned r =>
    match r.error with
    | .ok => k
    | _ => error

/-- What a call goes on with after success of its mailbox function. -/
def Cont.lockCode (m : ℕ) : Cont → LockCode
  | .claimed true c => .unlock .table (begin m c)
  | .claimed false c => Locks.checkExiting m .done (begin m c)
  | .refused => .unlock .table .done
  | .added => unclaimMailbox m .done
  | .removed _ => Locks.copyMessage m
  | .putBack => unclaimMailbox m .done
  | .stopped => unclaimMailbox m .done
  | .unclaimed _ => .done
  | .delivered _ => .done
  | .hook _ => .unlock .table (.sleep .kthreadRun .done)

def Pc.lockCode : Pc → LockCode
  | .validate _ c => call c
  | .lookup _ c => lookupMailbox .done fun m => begin m c
  | .onMailbox m cs k => cs.lockCode m (unclaimMailbox m .done) (k.lockCode m)
  | .checkExiting m c => Locks.checkExiting m .done (begin m c)
  | .createMessage m _ _ => Locks.createMessage m
  | .copyCount m _ _ => Locks.copyCount m
  | .copyToUser m _ _ => Locks.copyMessage m
  | .exitHook => Routine.newSysExit.code
  | .removeLookup _ => removeMailboxForPid .done
  | .startDeletion _ _ => .sleep .kthreadRun .done
  | _ => .done

def DeletionPc.lockCode (m : ℕ) : DeletionPc → LockCode
  | .start => mailboxDeletionThread m
  | .waitExit _ => mailboxDeletionThread m
  | .unlink _ => .lock .table (.unlock .table (mailboxDestroy m .done))
  | .destroying cs => cs.lockCode m .done .done
  | .done => .done

/-- A deletion thread that has not been started yet is done. -/
def System.lockCode (s : System) : Actor → LockCode
  | .task p => (s.pc p).lockCode
  | .kthread k =>
    match s.deletions k with
    | some d => d.pc.lockCode d.mailbox
    | none => .done

/-- Between the steps of the system the lock of the table is the only one that can be held. -/
def System.lockState (s : System) : LockSystem Actor where
  code := s.lockCode
  owner
    | .table => s.tableLock.map .task
    | _ => none

section Paths
open SpinLock.Code

variable {a : Actor} {sig : Bool} {mb mb' : Mailbox Actor MessagePtr} {cs : CallState MessagePtr}
  {pr : Progress MessagePtr} {r : Ret MessagePtr} {k : Cont} {m : ℕ} {error after : LockCode}

/-- The locks of the wait queues. -/
def Locks.queueLocks : Set Lock := {l | l ≠ .table}

/-- A thread takes an inner lock, goes its way under it and gives it back. -/
lemma Locks.passes_section {l : Lock} {b c : LockCode} (hl : l ∈ queueLocks) (h : b.Leads (.unlock l c)) :
    (SpinLock.Code.lock l b).Passes queueLocks c := .critical .refl hl h (.leads .refl)

/-- A sleeper comes back to its lock first. -/
lemma Locks.passes_asleep {l : Lock} {b c : LockCode} (hl : l ∈ queueLocks)
    (h : (SpinLock.Code.waitEvent .waitQueue l b).Leads (.unlock l c)) :
    (asleep l b).Passes queueLocks c := .sleep .refl (passes_section hl h)

/-- Every section of a mailbox function is one passage of its lock. -/
lemma Mailbox.Locked.passes (h : Mailbox.Locked a sig mb cs mb' pr) (m : ℕ) (error after : LockCode) :
    (cs.lockCode m error after).Passes queueLocks (pr.lockCode m error after) := by
  have hmodify : Lock.modifyQueue m ∈ queueLocks := nofun
  have hdereference : Lock.dereferenceQueue m ∈ queueLocks := nofun
  cases h with
  | addStopped | removeStopped => exact passes_section hmodify (.left .refl)
  | addFull | removeEmpty => exact passes_section hmodify (.right (.left (.right .refl)))
  | addNow | removeNow => exact passes_section hmodify (.right (.right .refl))
  | addSleep | removeSleep =>
    exact passes_section hmodify (.right (.left (.left (.again .refl))))
  | addSignalled | removeSignalled =>
    exact passes_section hmodify (.right (.left (.left (.exit (.left .refl)))))
  | addWokenStopped | removeWokenStopped =>
    exact passes_asleep hmodify (.exit (.right (.left .refl)))
  | addWoken | removeWoken => exact passes_asleep hmodify (.exit (.right (.right .refl)))
  | addInterrupted | removeInterrupted => exact passes_asleep hmodify (.exit (.left .refl))
  | addAgain | removeAgain => exact passes_asleep hmodify (.again .refl)
  | stopNow | destroyStop => exact passes_section hmodify .refl
  | claimNow | unclaimNow => exact passes_section hdereference .refl
  | flushSleep flushing =>
    rcases flushing with rfl | rfl
    · exact passes_section hmodify (.again .refl)
    · exact passes_asleep hmodify (.again .refl)
  | flushNow flushing =>
    rcases flushing with rfl | rfl
    · exact passes_section hmodify (.exit .refl)
    · exact passes_asleep hmodify (.exit .refl)
  | unclaimedSleep awaiting =>
    rcases awaiting with rfl | rfl
    · exact passes_section hdereference (.again .refl)
    · exact passes_asleep hdereference (.again .refl)
  | unclaimedNow awaiting =>
    rcases awaiting with rfl | rfl
    · exact passes_section hdereference (.exit .refl)
    · exact passes_asleep hdereference (.exit .refl)
  | freeNow => exact .leads .refl

lemma Syscall.lockCode_begin (m : ℕ) (c : Syscall) : (c.begin m).lockCode = Locks.begin m c := by
  cases c <;> rfl

/-- A call that comes back from its mailbox function releases the lock of the table where the system
says so. -/
lemma Cont.Fits.lockCode_returned (fits : k.Fits cs)
    (h : Mailbox.Locked a sig mb cs mb' (.returned r)) :
    (Progress.returned r).lockCode m (unclaimMailbox m .done) (k.lockCode m) =
      if k.unlocks then .unlock .table (k.resume m r).lockCode else (k.resume m r).lockCode := by
  cases k with
  | claimed fresh c =>
    obtain rfl := h.once_ok (.inl fits)
    cases fresh with
    | true => exact congrArg _ (Syscall.lockCode_begin m c).symm
    | false => rfl
  | refused | unclaimed code | delivered x =>
    obtain rfl := h.once_ok (.inr (.inl fits))
    rfl
  | stopped | hook group =>
    obtain rfl := h.once_ok (.inr (.inr ⟨_,fits⟩))
    rfl
  | added | putBack =>
    change (match r.error with | .ok => unclaimMailbox m .done | _ => unclaimMailbox m .done) = _
    split <;> rfl
  | removed ptrs =>
    cases r with
    | message e => rfl
    | code c =>
      have hc : c ≠ .ok := h.remove_error fits
      cases c with
      | ok => exact absurd rfl hc
      | _ => rfl

lemma Progress.lockCode_stays {cs' : CallState MessagePtr} (h : pr.callState = some cs') :
    pr.lockCode m error after = cs'.lockCode m error after := by
  cases pr with
  | returned r => cases h
  | next cs => cases h; rfl
  | flushed xs => cases h; rfl

end Paths

namespace System
open SpinLock.Code

variable {hash32 : Pid → ℕ} {sig : Actor → Bool} {s s' u : System} {act : Action}
  {tr : List (System × Action)} {p : Pid} {k : ℕ} {c c' : Pc} {free : Set Lock}

lemma lockState_setPc (s : System) (p : Pid) (c : Pc) :
    (s.setPc p c).lockState = s.lockState.setCode (.task p) c.lockCode := by
  have hcode : (s.setPc p c).lockCode = Function.update s.lockCode (.task p) c.lockCode := by
    funext a
    cases a with
    | task q =>
      by_cases hq : q = p
      · subst q
        rw [Function.update_self]
        exact congrArg Pc.lockCode (Function.update_self _ _ _)
      · rw [Function.update_of_ne fun h => hq (Actor.task.inj h)]
        exact congrArg Pc.lockCode (Function.update_of_ne hq _ _)
    | kthread k => rfl
  exact congrArg (SpinLock.State.mk · s.lockState.owner) hcode

lemma lockState_setDeletion (s : System) (k : ℕ) (d : DeletionThread) :
    (s.setDeletion k d).lockState = s.lockState.setCode (.kthread k) (d.pc.lockCode d.mailbox) := by
  have hcode : (s.setDeletion k d).lockCode =
      Function.update s.lockCode (.kthread k) (d.pc.lockCode d.mailbox) := by
    funext a
    cases a with
    | task q => rfl
    | kthread n =>
      by_cases hn : n = k
      · subst n
        rw [Function.update_self]
        have hd : (s.setDeletion k d).deletions k = some d := Function.update_self _ _ _
        simp only [lockCode,hd]
      · rw [Function.update_of_ne fun h => hn (Actor.kthread.inj h)]
        have hd : (s.setDeletion k d).deletions n = s.deletions n := Function.update_of_ne hn _ _
        simp only [lockCode,hd]
  exact congrArg (SpinLock.State.mk · s.lockState.owner) hcode

lemma lockState_tableLock (s : System) (o : Option Pid) :
    { s with tableLock := o }.lockState = s.lockState.setOwner .table (o.map .task) := by
  have howner : { s with tableLock := o }.lockState.owner =
      Function.update s.lockState.owner .table (o.map .task) := by
    funext l
    cases l with
    | table =>
      rw [Function.update_self]
      rfl
    | modifyQueue m =>
      have hne : Lock.modifyQueue m ≠ .table := nofun
      rw [Function.update_of_ne hne]
      rfl
    | dereferenceQueue m =>
      have hne : Lock.dereferenceQueue m ≠ .table := nofun
      rw [Function.update_of_ne hne]
      rfl
  exact congrArg (SpinLock.State.mk s.lockCode) howner

/-- The threads can go from the one state to the other by steps over the spin locks. -/
def Follows (s s' : System) : Prop := ∃ tr, Run Locks.step s.lockState tr s'.lockState

lemma Follows.trans (h : s.Follows u) (h' : u.Follows s') : s.Follows s' := by
  obtain ⟨tr,hrun⟩ := h
  obtain ⟨tr',hrun'⟩ := h'
  exact ⟨_,hrun.append hrun'⟩

lemma Follows.of_eq (h : s'.lockState = s.lockState) : s.Follows s' := by
  refine ⟨[],?_⟩
  rw [h]
  exact .refl

lemma queueLocks_free (s : System) : ∀ l ∈ Locks.queueLocks, s.lockState.owner l = none := by
  intro l hl
  cases l with
  | table => exact absurd rfl hl
  | modifyQueue m => rfl
  | dereferenceQueue m => rfl

lemma all_free (unlocked : s.tableLock = none) :
    ∀ l ∈ (Set.univ : Set Lock), s.lockState.owner l = none := by
  intro l _
  cases l with
  | table => exact congrArg (Option.map Actor.task) unlocked
  | modifyQueue m => rfl
  | dereferenceQueue m => rfl

/-- A task passes some locks and gives them back. -/
lemma Follows.task (same : u.lockState = s.lockState) (pc : s.pc p = c)
    (hfree : ∀ l ∈ free, s.lockState.owner l = none) (h : c.lockCode.Passes free c'.lockCode) :
    s.Follows (u.setPc p c') := by
  have hcode : s.lockState.code (.task p) = c.lockCode := congrArg Pc.lockCode pc
  obtain ⟨tr,hrun⟩ : ∃ tr, Run Locks.step s.lockState tr (s.lockState.setCode (.task p) c'.lockCode) :=
    SpinLock.State.run_passes h hcode hfree
  refine ⟨tr,?_⟩
  rw [lockState_setPc,same]
  exact hrun

/-- A task takes the lock of the table. -/
lemma Follows.takes {b : LockCode} (pc : s.pc p = c) (unlocked : s.tableLock = none)
    (same : u.lockState = s.lockState.setOwner .table (some (.task p)))
    (hlock : c.lockCode = .lock .table b) (h : b.Leads c'.lockCode) : s.Follows (u.setPc p c') := by
  have hcode : s.lockState.code (.task p) = .lock .table b := (congrArg Pc.lockCode pc).trans hlock
  have hfree : s.lockState.owner .table = none := congrArg (Option.map Actor.task) unlocked
  have hstep : Locks.step s.lockState (.run (.task p) 0) =
      some ((s.lockState.setCode (.task p) b).setOwner .table (some (.task p))) :=
    SpinLock.State.step_lock hcode hfree
  obtain ⟨tr,hrun⟩ : ∃ tr, Run Locks.step
      ((s.lockState.setCode (.task p) b).setOwner .table (some (.task p))) tr
      (((s.lockState.setCode (.task p) b).setCode (.task p) c'.lockCode).setOwner .table
        (some (.task p))) :=
    SpinLock.State.run_leads h (SpinLock.State.setCode_self _ _ _)
  have hafter : (u.setPc p c').lockState =
      ((s.lockState.setCode (.task p) b).setCode (.task p) c'.lockCode).setOwner .table
        (some (.task p)) := by
    rw [lockState_setPc,same,SpinLock.State.setCode_setCode]
    rfl
  exact ⟨_,.cons hstep (hafter ▸ hrun)⟩

/-- A task gives the lock of the table back. -/
lemma Follows.gives (pc : s.pc p = c) (same : u.lockState = s.lockState.setOwner .table none)
    (h : c.lockCode.Passes Locks.queueLocks (.unlock .table c'.lockCode)) :
    s.Follows (u.setPc p c') := by
  have hcode : s.lockState.code (.task p) = c.lockCode := congrArg Pc.lockCode pc
  obtain ⟨tr,hrun⟩ : ∃ tr, Run Locks.step s.lockState tr
      (s.lockState.setCode (.task p) (.unlock .table c'.lockCode)) :=
    SpinLock.State.run_passes h hcode s.queueLocks_free
  have hstep : Locks.step (s.lockState.setCode (.task p) (.unlock .table c'.lockCode))
      (.run (.task p) 0) = _ := SpinLock.State.step_unlock (SpinLock.State.setCode_self _ _ _)
  rw [SpinLock.State.setCode_setCode] at hstep
  have hafter : (u.setPc p c').lockState =
      (s.lockState.setCode (.task p) c'.lockCode).setOwner .table none := by
    rw [lockState_setPc,same]
    rfl
  exact ⟨_,hrun.snoc (hafter ▸ hstep)⟩

/-- A task in user mode starts a routine of the module. -/
lemma Follows.starts {last : Option Code} (r : Routine) (same : u.lockState = s.lockState)
    (pc : s.pc p = .user last) (hr : r.code = c'.lockCode) : s.Follows (u.setPc p c') := by
  have hcode : s.lockState.code (.task p) = .done := congrArg Pc.lockCode pc
  have hstep : Locks.step s.lockState (.start (.task p) r) =
      some (s.lockState.setCode (.task p) c'.lockCode) := by
    rw [← hr]
    simp only [Locks.step,SpinLock.State.step,hcode]
  have hafter : (u.setPc p c').lockState = s.lockState.setCode (.task p) c'.lockCode := by
    rw [lockState_setPc,same]
  exact ⟨_,.single (hafter ▸ hstep)⟩

lemma Follows.kthread {d d' : DeletionThread} (same : u.lockState = s.lockState)
    (deletion : s.deletions k = some d) (hfree : ∀ l ∈ free, s.lockState.owner l = none)
    (h : (d.pc.lockCode d.mailbox).Passes free (d'.pc.lockCode d'.mailbox)) :
    s.Follows (u.setDeletion k d') := by
  have hcode : s.lockState.code (.kthread k) = d.pc.lockCode d.mailbox := by
    simp only [lockState,lockCode,deletion]
  obtain ⟨tr,hrun⟩ : ∃ tr, Run Locks.step s.lockState tr
      (s.lockState.setCode (.kthread k) (d'.pc.lockCode d'.mailbox)) :=
    SpinLock.State.run_passes h hcode hfree
  refine ⟨tr,?_⟩
  rw [lockState_setDeletion,same]
  exact hrun

lemma Follows.kthreadRun (h : Consistent hash32 s) (m : ℕ) : s.Follows (s.kthreadRun m) := by
  have hnone : s.deletions s.deletionsStarted = none := by
    by_contra hsome
    exact Nat.lt_irrefl _ (h.deletions_lt _ hsome)
  have hcode : s.lockState.code (.kthread s.deletionsStarted) = .done := by
    simp only [lockState,lockCode,hnone]
  have hstep : Locks.step s.lockState
      (.start (.kthread s.deletionsStarted) (.mailboxDeletionThread m)) =
      some (s.lockState.setCode (.kthread s.deletionsStarted) (mailboxDeletionThread m)) := by
    simp only [Locks.step,SpinLock.State.step,hcode]
    rfl
  have hafter : (s.kthreadRun m).lockState =
      s.lockState.setCode (.kthread s.deletionsStarted) (mailboxDeletionThread m) :=
    lockState_setDeletion s s.deletionsStarted ⟨m,.start⟩
  exact ⟨_,.single (hafter ▸ hstep)⟩

/-- Every step of the system is a run of its threads over the spin locks. -/
theorem Consistent.follows (h : Consistent hash32 s) (hs : Stepped hash32 s act s') :
    s.Follows s' := by
  cases hs with
  | newProcess absent | clone _ _ absent => exact .task rfl absent s.queueLocks_free (.leads .refl)
  | @enter p c last user => exact .starts (.call c) rfl user rfl
  | exit user => exact .starts .newSysExit rfl user rfl
  | exitGroup user => exact .starts .newSysExitGroup rfl user rfl
  | killed user => exact .task rfl user s.queueLocks_free (.leads .refl)
  | reap zombie => exact .task rfl zombie s.queueLocks_free (.leads .refl)
  | fatalSignal | signal | handle | stillValid => exact .of_eq rfl
  | valid pc => exact .task rfl pc s.queueLocks_free (.leads (.right .refl))
  | invalid pc => exact .task rfl pc s.queueLocks_free (.leads (.left .refl))
  | @found p o pid c m pc unlocked =>
    exact .takes pc unlocked (s.lockState_tableLock _) rfl (.right (.any m .refl))
  | @created p o pid c pc unlocked =>
    exact .takes pc unlocked (s.lockState_tableLock _) rfl
      (.left (.right (.any s.mailboxesCreated .refl)))
  | outOfMemory pc unlocked =>
    exact .task rfl pc (all_free unlocked)
      (.critical .refl (Set.mem_univ _) (.left (.left .refl)) (.leads .refl))
  | @stays p o m cs k m' pr cs' pc locked stays =>
    have hpass := locked.locked.passes m (unclaimMailbox m .done) (k.lockCode m)
    rw [Progress.lockCode_stays stays] at hpass
    exact .task rfl pc s.queueLocks_free hpass
  | @returned p o m cs k m' r pc locked =>
    have hfits := h.fits p
    rw [pc] at hfits
    have hpass := locked.locked.passes m (unclaimMailbox m .done) (k.lockCode m)
    rw [Cont.Fits.lockCode_returned hfits locked.locked] at hpass
    unfold returnFrom
    cases hk : k.unlocks with
    | true =>
      rw [if_pos hk] at hpass
      exact .gives pc (s.lockState_tableLock none) hpass
    | false =>
      rw [if_neg (by rw [hk]; exact Bool.false_ne_true)] at hpass
      exact .task rfl pc s.queueLocks_free hpass
  | refused pc => exact .task rfl pc s.queueLocks_free (.leads (.left .refl))
  | @granted p o m c pc =>
    apply Follows.gives pc (s.lockState_tableLock none)
    rw [Syscall.lockCode_begin]
    exact .leads (.right .refl)
  | messageCreated pc =>
    exact .task rfl pc s.queueLocks_free (.sleep (.right .refl) (.leads (.right .refl)))
  | messageFailed pc => exact .task rfl pc s.queueLocks_free (.leads (.left .refl))
  | countFault pc => exact .task rfl pc s.queueLocks_free (.sleep .refl (.leads (.left .refl)))
  | @countCopied p o m stop count pc =>
    refine .task rfl pc s.queueLocks_free (.sleep .refl (.leads (.right ?_)))
    cases stop with
    | true => exact .left .refl
    | false => exact .right .refl
  | copied pc =>
    exact .task rfl pc s.queueLocks_free (.sleep .refl (.sleep (.right .refl)
      (.sleep (.right .refl) (.leads (.right .refl)))))
  | copyFault pc => exact .task rfl pc s.queueLocks_free (.sleep .refl (.leads (.left .refl)))
  | destroyed pc => exact .task rfl pc s.queueLocks_free (.leads .refl)
  | lastThread pc => exact .task rfl pc s.queueLocks_free (.leads (.left .refl))
  | otherThread pc => exact .task rfl pc s.queueLocks_free (.leads (.right .refl))
  | @removalFound p o group m pc unlocked =>
    exact .takes pc unlocked (s.lockState_tableLock _) rfl (.left (.any m .refl))
  | removalMissing pc unlocked =>
    exact .task rfl pc (all_free unlocked)
      (.critical .refl (Set.mem_univ _) (.right .refl) (.leads .refl))
  | @deletionStarted p o m group pc =>
    have hpc : (s.kthreadRun m).pc p = .startDeletion m group := pc
    have hstart : s.Follows (s.kthreadRun m) := Follows.kthreadRun h m
    exact hstart.trans (.task rfl hpc (queueLocks_free _) (.sleep .refl (.leads .refl)))
  | deletionFailed pc => exact .task rfl pc s.queueLocks_free (.sleep .refl (.leads .refl))
  | realExit pc => exact .task rfl pc s.queueLocks_free (.leads .refl)
  | decrementLive pc => exact .task rfl pc s.queueLocks_free (.leads .refl)
  | die pc => exact .task rfl pc s.queueLocks_free (.leads .refl)
  | ownerRead deletion => exact .kthread rfl deletion s.queueLocks_free (.leads .refl)
  | exited deletion => exact .kthread rfl deletion s.queueLocks_free (.leads (.exit .refl))
  | unlinked deletion unlocked =>
    exact .kthread rfl deletion (all_free unlocked)
      (.critical .refl (Set.mem_univ _) .refl (.leads .refl))
  | destroyStays deletion locked =>
    exact .kthread rfl deletion s.queueLocks_free (locked.locked.passes _ _ _)
  | flushed deletion locked =>
    exact .kthread rfl deletion s.queueLocks_free (locked.locked.passes _ _ _)
  | @deleted k m o cs m' r deletion locked =>
    have hd : CallState.Destroys cs := h.destroys _ _ deletion
    obtain rfl := locked.locked.free_of_returned hd
    exact .kthread rfl deletion s.queueLocks_free (.leads .refl)

/-- Every run of the system is one of its threads over the spin locks. -/
theorem locks_of_run (h : Run (step hash32) (initial sig) tr s) :
    ∃ tr', Run Locks.step .initial tr' s.lockState := by
  induction h with
  | refl =>
    have hinitial : (initial sig).lockState = .initial := by
      unfold lockState
      congr
      · funext a
        cases a <;> rfl
      · funext l
        cases l <;> rfl
    exact ⟨[],hinitial ▸ .refl⟩
  | snoc prior taken ih =>
    obtain ⟨tr,hrun⟩ := ih
    obtain ⟨tr',hrest⟩ := (consistent_of_run prior).follows (step_stepped taken)
    exact ⟨_,hrun.append hrest⟩

/-- The threads of every reachable state of the system stand in order with the spin locks. -/
theorem lockState_safe (h : Run (step hash32) (initial sig) tr s) : s.lockState.Safe := by
  obtain ⟨tr',hrun⟩ := locks_of_run h
  exact (SpinLock.State.checked_of_run Locks.checks_code hrun).safe

end System
end ProcessMessagePassing
