import ProcessMessagePassing.Kernel.System

/-! Everything a step of the system can do, said once. The invariants of the system go by cases
on `Stepped`, most of them through one of the views of later modules. -/
namespace ProcessMessagePassing.System
open Concurrency HashTable

variable (hash32 : Pid → ℕ)

/-- The section of a task or of a deletion thread on a mailbox, and what comes of it. -/
structure Section (s : System) (a : Actor) (m : ℕ) (cs : CallState MessagePtr)
    (m' : Mailbox Actor MessagePtr) (pr : Progress MessagePtr) : Prop where
  runnable : (s.mailboxes m).runnable a (s.signalPending a) cs = true
  locked : Mailbox.Locked a (s.signalPending a) (s.mailboxes m) cs m' pr
  result : Mailbox.criticalSection a (s.signalPending a) (s.mailboxes m) cs = (m',pr)

/-- The state after a lookup that created the mailbox of `pid`. -/
def createMailbox (s : System) (p : Pid) (pid : Pid) (c : Syscall) : System :=
  let m := s.mailboxesCreated
  let s := { s.setMailbox m (.create pid) with mailboxesCreated := m + 1 }
  { s with
    table := hashtablePut hash32 s.owner s.table pid m
    tableLock := some p }.setPc p (.onMailbox m .claim (.claimed true c))

/-- The state after a task came back from a mailbox function. -/
def returnFrom (s : System) (p : Pid) (m : ℕ) (k : Cont) (m' : Mailbox Actor MessagePtr)
    (r : Ret MessagePtr) : System :=
  let s := s.setMailbox m m'
  { s with tableLock := if k.unlocks then none else s.tableLock }.setPc p (k.resume m r)

/-- The task writes to user space on its way. -/
def setWritten (s : System) (p : Pid) (writes : List UserWrite) : System :=
  { s with written := Function.update s.written p writes }

inductive Stepped (s : System) : Action → System → Prop
  | newProcess {p uid} (absent : s.pc p = .absent) (free : s.processes.task p = none) :
      Stepped s (.newProcess p uid)
        ({ s with processes := s.processes.newProcess p uid }.setPc p (.user none))
  | clone {parent p last task} (caller : s.pc parent = .user last)
      (alive : s.processes.task parent = some task) (absent : s.pc p = .absent)
      (free : s.processes.task p = none) :
      Stepped s (.clone parent p)
        ({ s with processes := s.processes.clone task p }.setPc p (.user none))
  | enter {p c last} (user : s.pc p = .user last) :
      Stepped s (.enter p c) ((s.setWritten p []).setPc p (.validate (s.key p c) c))
  | exit {p last} (user : s.pc p = .user last) : Stepped s (.exit p) (s.setPc p .exitHook)
  | exitGroup {p last} (user : s.pc p = .user last) :
      Stepped s (.exitGroup p) (s.setPc p (.removeLookup true))
  | fatalSignal {p} (alive : (s.processes.task p).isSome = true) :
      Stepped s (.fatalSignal p)
        { s with processes := s.processes.setGroupExit (s.processes.tgid p) }
  | killed {p last} (user : s.pc p = .user last)
      (group : s.processes.groupExit (s.processes.tgid p) = true) :
      Stepped s (.killed p) (s.setPc p (.realExit false))
  | reap {p} (zombie : s.pc p = .zombie) (released : s.processes.mayRelease p = true) :
      Stepped s (.reap p) ({ s with processes := s.processes.release p }.setPc p .absent)
  | signal {a} :
      Stepped s (.signal a) { s with signalPending := Function.update s.signalPending a true }
  | handle {p last} (user : s.pc p = .user last) :
      Stepped s (.handle p)
        { s with signalPending := Function.update s.signalPending (.task p) false }
  | valid {p o pid c} (pc : s.pc p = .validate pid c)
      (valid : s.processes.isProcessValid pid = true) :
      Stepped s (.run p o) (s.setPc p (.lookup pid c))
  | invalid {p o pid c} (pc : s.pc p = .validate pid c)
      (invalid : s.processes.isProcessValid pid = false) :
      Stepped s (.run p o) (s.setPc p (.user (some .mailboxInvalid)))
  | found {p o pid c m} (pc : s.pc p = .lookup pid c) (unlocked : s.tableLock = none)
      (found : s.get hash32 pid = some m) :
      Stepped s (.run p o)
        ({ s with tableLock := some p }.setPc p (.onMailbox m .claim (.claimed false c)))
  | created {p o pid c} (pc : s.pc p = .lookup pid c) (unlocked : s.tableLock = none)
      (missing : s.get hash32 pid = none) (memory : o.alloc = true) :
      Stepped s (.run p o) (s.createMailbox hash32 p pid c)
  | outOfMemory {p o pid c} (pc : s.pc p = .lookup pid c) (unlocked : s.tableLock = none)
      (missing : s.get hash32 pid = none) (full : o.alloc = false) :
      Stepped s (.run p o) (s.setPc p (.user (some .mailboxError)))
  | stays {p o m cs k m' pr cs'} (pc : s.pc p = .onMailbox m cs k)
      (locked : s.Section (.task p) m cs m' pr) (stays : pr.callState = some cs') :
      Stepped s (.run p o) ((s.setMailbox m m').setPc p (.onMailbox m cs' k))
  | returned {p o m cs k m' r} (pc : s.pc p = .onMailbox m cs k)
      (locked : s.Section (.task p) m cs m' (.returned r)) :
      Stepped s (.run p o) (s.returnFrom p m k m' r)
  | refused {p o m c} (pc : s.pc p = .checkExiting m c)
      (exiting : (s.mailboxes m).stopped &&& exitingFlag ≠ 0) :
      Stepped s (.run p o) (s.setPc p (.onMailbox m .unclaim .refused))
  | granted {p o m c} (pc : s.pc p = .checkExiting m c)
      (alive : (s.mailboxes m).stopped &&& exitingFlag = 0) :
      Stepped s (.run p o) ({ s with tableLock := none }.setPc p (c.begin m))
  | messageCreated {p o m len block h x} (pc : s.pc p = .createMessage m len block)
      (made : s.messages.create (s.processes.tgid p) len o = (h,.ok x)) :
      Stepped s (.run p o)
        ({ s with messages := h }.setPc p
          (.onMailbox m (.addMessage (.object x) block false) .added))
  | messageFailed {p o m len block h code} (pc : s.pc p = .createMessage m len block)
      (failed : s.messages.create (s.processes.tgid p) len o = (h,.error code)) :
      Stepped s (.run p o) ({ s with messages := h }.setPc p (.unclaim m code))
  | countFault {p o m stop count} (pc : s.pc p = .copyCount m stop count)
      (fault : count < sizeofInt) :
      Stepped s (.run p o) (s.setPc p (.unclaim m .msgArgError))
  | countCopied {p o m stop count} (pc : s.pc p = .copyCount m stop count)
      (writable : sizeofInt ≤ count) :
      Stepped s (.run p o)
        ((s.setWritten p (s.written p ++ [.count (s.mailboxes m).messageCount])).setPc p
          (if stop then .onMailbox m (.stop stoppedFlag) .stopped else .unclaim m .ok))
  | copied {p o m x ptrs} (pc : s.pc p = .copyToUser m x ptrs)
      (writable : ptrs.writable (s.messages.read o x) = true) :
      Stepped s (.run p o)
        ((s.setWritten p (s.written p ++ copyMessage ptrs (s.messages.read o x))).setPc p
          (.onMailbox m .unclaim (.delivered x)))
  | copyFault {p o m x ptrs} (pc : s.pc p = .copyToUser m x ptrs)
      (fault : ptrs.writable (s.messages.read o x) = false) :
      Stepped s (.run p o)
        ((s.setWritten p (s.written p ++ copyMessage ptrs (s.messages.read o x))).setPc p
          (.onMailbox m (.addMessage x true true) .putBack))
  | destroyed {p o x} (pc : s.pc p = .destroyMessage x) :
      Stepped s (.run p o)
        ({ s with messages := s.messages.destroy x }.setPc p (.user (some .ok)))
  | lastThread {p o} (pc : s.pc p = .exitHook)
      (last : s.processes.live (s.processes.tgid p) = 1) :
      Stepped s (.run p o) (s.setPc p (.removeLookup false))
  | otherThread {p o} (pc : s.pc p = .exitHook)
      (others : s.processes.live (s.processes.tgid p) ≠ 1) :
      Stepped s (.run p o) (s.setPc p (.realExit false))
  | removalFound {p o group m} (pc : s.pc p = .removeLookup group) (unlocked : s.tableLock = none)
      (found : s.get hash32 (s.processes.tgid p) = some m) :
      Stepped s (.run p o)
        ({ s with tableLock := some p }.setPc p
          (.onMailbox m (.stop (exitingFlag ||| stoppedFlag)) (.hook group)))
  | removalMissing {p o group} (pc : s.pc p = .removeLookup group)
      (unlocked : s.tableLock = none)
      (missing : s.get hash32 (s.processes.tgid p) = none) :
      Stepped s (.run p o) (s.setPc p (.realExit group))
  | deletionStarted {p o m group} (pc : s.pc p = .startDeletion m group)
      (success : o.kthreadRun = true) :
      Stepped s (.run p o) ((s.kthreadRun m).setPc p (.realExit group))
  | deletionFailed {p o m group} (pc : s.pc p = .startDeletion m group)
      (failure : o.kthreadRun = false) :
      Stepped s (.run p o) (s.setPc p (.realExit group))
  | realExit {p o group} (pc : s.pc p = .realExit group) :
      Stepped s (.run p o)
        ({ s with
          processes := (if group then s.processes.setGroupExit (s.processes.tgid p)
            else s.processes).setExiting p }.setPc p .decrementLive)
  | decrementLive {p o} (pc : s.pc p = .decrementLive) :
      Stepped s (.run p o) ({ s with processes := s.processes.decrementLive p }.setPc p .die)
  | die {p o} (pc : s.pc p = .die) :
      Stepped s (.run p o) ({ s with processes := s.processes.die p }.setPc p .zombie)
  | ownerRead {k m o pid} (deletion : s.deletions k = some ⟨m,.start⟩)
      (read : (s.mailboxes m).frees = 0 → pid = s.owner m) :
      Stepped s (.runDeletion k o) (s.setDeletion k ⟨m,.waitExit pid⟩)
  | stillValid {k m o pid} (deletion : s.deletions k = some ⟨m,.waitExit pid⟩)
      (valid : s.processes.isProcessValid pid = true) : Stepped s (.runDeletion k o) s
  | exited {k m o pid} (deletion : s.deletions k = some ⟨m,.waitExit pid⟩)
      (invalid : s.processes.isProcessValid pid = false) :
      Stepped s (.runDeletion k o) (s.setDeletion k ⟨m,.unlink pid⟩)
  | unlinked {k m o pid} (deletion : s.deletions k = some ⟨m,.unlink pid⟩)
      (unlocked : s.tableLock = none) :
      Stepped s (.runDeletion k o)
        ({ s with table := hashtableRemove hash32 s.owner s.table pid }.setDeletion k
          ⟨m,.destroying .destroy⟩)
  | destroyStays {k m o cs m' cs'} (deletion : s.deletions k = some ⟨m,.destroying cs⟩)
      (locked : s.Section (.kthread k) m cs m' (.next cs')) :
      Stepped s (.runDeletion k o) ((s.setMailbox m m').setDeletion k ⟨m,.destroying cs'⟩)
  | flushed {k m o cs m' xs} (deletion : s.deletions k = some ⟨m,.destroying cs⟩)
      (locked : s.Section (.kthread k) m cs m' (.flushed xs)) :
      Stepped s (.runDeletion k o)
        (((s.setMailbox m m').destroyMessages xs).setDeletion k ⟨m,.destroying .awaitUnclaimed⟩)
  | deleted {k m o cs m' r} (deletion : s.deletions k = some ⟨m,.destroying cs⟩)
      (locked : s.Section (.kthread k) m cs m' (.returned r)) :
      Stepped s (.runDeletion k o) ((s.setMailbox m m').setDeletion k ⟨m,.done⟩)

variable {hash32} {s s' : System}

lemma section_criticalSection {a : Actor} {m : ℕ} {cs : CallState MessagePtr}
    (h : (s.mailboxes m).runnable a (s.signalPending a) cs = true) :
    s.Section a m cs (Mailbox.criticalSection a (s.signalPending a) (s.mailboxes m) cs).1
      (Mailbox.criticalSection a (s.signalPending a) (s.mailboxes m) cs).2 :=
  ⟨h,Mailbox.criticalSection_locked _ _ _ _,rfl⟩

lemma runSection_stepped {p : Pid} {o : Oracle} {m : ℕ} {cs : CallState MessagePtr} {k : Cont}
    (pc : s.pc p = .onMailbox m cs k)
    (runnable : (s.mailboxes m).runnable (.task p) (s.signalPending (.task p)) cs = true) :
    Stepped hash32 s (.run p o) (s.runSection p m cs k) := by
  have hsec := section_criticalSection runnable
  unfold runSection
  generalize Mailbox.criticalSection (.task p) (s.signalPending (.task p)) (s.mailboxes m) cs = r
    at hsec ⊢
  obtain ⟨m',pr⟩ := r
  cases pr with
  | next cs' => exact .stays pc hsec rfl
  | flushed xs => exact .stays pc hsec rfl
  | returned ret => exact .returned pc hsec

lemma runDestroy_stepped {k m : ℕ} {o : Oracle} {cs : CallState MessagePtr}
    (deletion : s.deletions k = some ⟨m,.destroying cs⟩)
    (runnable : (s.mailboxes m).runnable (.kthread k) (s.signalPending (.kthread k)) cs = true) :
    Stepped hash32 s (.runDeletion k o) (s.runDestroy k m cs) := by
  have hsec := section_criticalSection runnable
  unfold runDestroy
  generalize Mailbox.criticalSection (.kthread k) (s.signalPending (.kthread k))
    (s.mailboxes m) cs = r at hsec ⊢
  obtain ⟨m',pr⟩ := r
  cases pr with
  | next cs' => exact .destroyStays deletion hsec
  | flushed xs => exact .flushed deletion hsec
  | returned ret => exact .deleted deletion hsec

lemma lookupMailbox_stepped {p pid : Pid} {o : Oracle} {c : Syscall}
    (pc : s.pc p = .lookup pid c) (unlocked : s.tableLock = none) :
    Stepped hash32 s (.run p o) (s.lookupMailbox hash32 p pid c o) := by
  unfold lookupMailbox
  cases hg : s.get hash32 pid with
  | some m => exact .found pc unlocked hg
  | none =>
    dsimp only
    split_ifs with ha
    · exact .created pc unlocked hg ha
    · exact .outOfMemory pc unlocked hg (by simpa using ha)

lemma runTask_stepped {p : Pid} {o : Oracle} (h : s.runTask hash32 p o = some s') :
    Stepped hash32 s (.run p o) s' := by
  unfold runTask at h
  cases hpc : s.pc p with
  | validate pid c =>
    simp only [hpc] at h
    cases h
    cases hv : s.processes.isProcessValid pid with
    | true => exact .valid hpc hv
    | false => exact .invalid hpc hv
  | lookup pid c =>
    simp only [hpc] at h
    split_ifs at h with hl
    cases h
    exact lookupMailbox_stepped hpc hl
  | onMailbox m cs k =>
    simp only [hpc] at h
    split_ifs at h with hr
    cases h
    exact runSection_stepped hpc hr
  | checkExiting m c =>
    simp only [hpc] at h
    split_ifs at h with he
    · cases h; exact .refused hpc he
    · cases h; exact .granted hpc (not_not.mp he)
  | createMessage m len block =>
    simp only [hpc] at h
    cases h
    unfold createMessage
    rcases hr : s.messages.create (s.processes.tgid p) len o with ⟨h,code | x⟩
    · exact .messageFailed hpc hr
    · exact .messageCreated hpc hr
  | copyCount m stop count =>
    simp only [hpc] at h
    cases h
    unfold copyCount
    split_ifs with hc hs
    · exact .countFault hpc hc
    · have hstep : Stepped hash32 s (.run p o) _ := .countCopied hpc (not_lt.mp hc)
      rwa [if_pos hs] at hstep
    · have hstep : Stepped hash32 s (.run p o) _ := .countCopied hpc (not_lt.mp hc)
      rwa [if_neg hs] at hstep
  | copyToUser m x ptrs =>
    simp only [hpc] at h
    cases h
    unfold copyToUser
    dsimp only
    split_ifs with hw
    · exact .copied hpc hw
    · exact .copyFault hpc (by simpa using hw)
  | destroyMessage x => simp only [hpc] at h; cases h; exact .destroyed hpc
  | exitHook =>
    simp only [hpc] at h
    cases h
    split_ifs with hl
    · exact .lastThread hpc hl
    · exact .otherThread hpc hl
  | removeLookup group =>
    simp only [hpc] at h
    split_ifs at h with hl
    cases h
    unfold lookupForRemoval
    cases hg : s.get hash32 (s.processes.tgid p) with
    | some m => exact .removalFound hpc hl hg
    | none => exact .removalMissing hpc hl hg
  | startDeletion m group =>
    simp only [hpc] at h
    cases h
    split_ifs with hk
    · exact .deletionStarted hpc hk
    · exact .deletionFailed hpc (by simpa using hk)
  | realExit group => simp only [hpc] at h; cases h; exact .realExit hpc
  | decrementLive => simp only [hpc] at h; cases h; exact .decrementLive hpc
  | die => simp only [hpc] at h; cases h; exact .die hpc
  | absent => simp only [hpc] at h; cases h
  | user last => simp only [hpc] at h; cases h
  | zombie => simp only [hpc] at h; cases h

lemma runDeletionThread_stepped {k : ℕ} {d : DeletionThread} {o : Oracle}
    (deletion : s.deletions k = some d) (h : s.runDeletionThread hash32 k d o = some s') :
    Stepped hash32 s (.runDeletion k o) s' := by
  obtain ⟨m,pc⟩ := d
  cases pc with
  | start =>
    simp only [runDeletionThread] at h
    cases h
    exact .ownerRead deletion fun hf => by rw [if_pos hf]
  | waitExit pid =>
    simp only [runDeletionThread] at h
    split_ifs at h with hv
    · cases h; exact .stillValid deletion hv
    · cases h; exact .exited deletion (by simpa using hv)
  | unlink pid =>
    simp only [runDeletionThread] at h
    split_ifs at h with hl
    cases h
    exact .unlinked deletion hl
  | destroying cs =>
    simp only [runDeletionThread] at h
    split_ifs at h with hr
    cases h
    exact runDestroy_stepped deletion hr
  | done => simp only [runDeletionThread] at h; cases h

theorem step_stepped {act : Action} (h : s.step hash32 act = some s') :
    Stepped hash32 s act s' := by
  cases act with
  | newProcess p uid =>
    simp only [step] at h
    split_ifs at h with hp
    cases h
    exact .newProcess hp.1 hp.2
  | clone parent p =>
    simp only [step] at h
    split at h
    · next last task hpc htask =>
      split_ifs at h with hp
      cases h
      exact .clone hpc htask hp.1 hp.2
    · cases h
  | enter p c =>
    simp only [step] at h
    split at h
    · next last hpc => cases h; exact .enter hpc
    · cases h
  | exit p =>
    simp only [step] at h
    split at h
    · next last hpc => cases h; exact .exit hpc
    · cases h
  | exitGroup p =>
    simp only [step] at h
    split at h
    · next last hpc => cases h; exact .exitGroup hpc
    · cases h
  | fatalSignal p =>
    simp only [step] at h
    split_ifs at h with ha
    cases h
    exact .fatalSignal ha
  | killed p =>
    simp only [step] at h
    split at h
    · next last hpc =>
      split_ifs at h with hg
      cases h
      exact .killed hpc hg
    · cases h
  | reap p =>
    simp only [step] at h
    split_ifs at h with hz
    cases h
    exact .reap hz.1 hz.2
  | signal a => cases h; exact .signal
  | handle p =>
    simp only [step] at h
    split at h
    · next last hpc => cases h; exact .handle hpc
    · cases h
  | run p o => exact runTask_stepped h
  | runDeletion k o =>
    simp only [step] at h
    split at h
    · next d hd => exact runDeletionThread_stepped hd h
    · cases h

/-- A step keeps the contents of the messages there are. -/
theorem Stepped.extends {act : Action} (hs : Stepped hash32 s act s') :
    s.messages.Extends s'.messages := by
  cases hs with
  | messageCreated pc made | messageFailed pc made => exact MessageCache.extends_create made
  | destroyed => exact MessageCache.extends_destroy _ _
  | flushed => exact MessageCache.extends_destroys _ _
  | _ => exact .refl _

end ProcessMessagePassing.System
