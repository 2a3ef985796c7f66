import ProcessMessagePassing.Kernel.Leak

/-! Recycled memory. A message object comes with the bytes of an earlier one, and only the bytes of
its own message are ever copied out: two runs that differ in the rest cannot be told apart. -/
namespace ProcessMessagePassing
open Concurrency HashTable

/-- The message with the bytes that a receive can copy. -/
def Message.visible (x : Message) : Message := { x with msg := x.msg.take x.copySize }

/-- The choices of a step but for the contents of recycled message objects. -/
def Oracle.forgetStale (o : Oracle) : Oracle := { o with stale := [] }

def Action.forgetStale : Action → Action
  | .run p o => .run p o.forgetStale
  | .runDeletion k o => .runDeletion k o.forgetStale
  | act => act

/-- All other choices are the same. -/
lemma Oracle.same_of_forgetStale {o o' : Oracle} (same : o'.forgetStale = o.forgetStale) :
    o'.alloc = o.alloc ∧ o'.kthreadRun = o.kthreadRun ∧ o'.buffer = o.buffer ∧
      o'.staleOwner = o.staleOwner ∧ o'.garbage = o.garbage := by
  simp only [forgetStale,Oracle.mk.injEq,true_and] at same
  exact same

lemma copyMessage_visible (ptrs : RecievePtrs) (x : Message) :
    copyMessage ptrs x.visible = copyMessage ptrs x := by
  unfold copyMessage
  have hsize : x.visible.copySize = x.copySize := rfl
  have hmsg : x.visible.msg.take x.copySize = x.msg.take x.copySize := by
    simp [Message.visible,List.take_take]
  simp only [hsize,hmsg]
  rfl

lemma writable_visible (ptrs : RecievePtrs) (x : Message) :
    ptrs.writable x.visible = ptrs.writable x := rfl

namespace MessageCache
variable {h h' : MessageCache}

/-- The two caches differ at most in bytes that nobody reads. -/
structure Agrees (h h' : MessageCache) : Prop where
  created : h'.created = h.created
  frees : h'.frees = h.frees
  strayFrees : h'.strayFrees = h.strayFrees
  object : ∀ n, n < h.created → h.frees n = 0 → (h'.object n).visible = (h.object n).visible

lemma Agrees.refl (h : MessageCache) : h.Agrees h := ⟨rfl,rfl,rfl,fun _ _ _ => rfl⟩

lemma live_of_free {n k : ℕ} (live : (h.free n).frees k = 0) : k ≠ n ∧ h.frees k = 0 := by
  change Function.update h.frees n (h.frees n + 1) k = 0 at live
  by_cases hkn : k = n
  · subst k
    rw [Function.update_self] at live
    cases live
  · rw [Function.update_of_ne hkn] at live
    exact ⟨hkn,live⟩

lemma Agrees.free (agrees : h.Agrees h') (n : ℕ) : (h.free n).Agrees (h'.free n) where
  created := agrees.created
  frees := by
    unfold MessageCache.free
    rw [agrees.frees]
  strayFrees := agrees.strayFrees
  object k hk live := agrees.object k hk (live_of_free live).2

lemma Agrees.destroy (agrees : h.Agrees h') (x : MessagePtr) :
    (h.destroy x).Agrees (h'.destroy x) := by
  cases x with
  | object n => exact agrees.free n
  | listHead n =>
    refine ⟨agrees.created,agrees.frees,?_,agrees.object⟩
    exact congrArg (· + 1) agrees.strayFrees

lemma Agrees.destroys (agrees : h.Agrees h') (xs : List MessagePtr) :
    (xs.foldl MessageCache.destroy h).Agrees (xs.foldl MessageCache.destroy h') := by
  induction xs generalizing h h' with
  | nil => exact agrees
  | cons x xs ih => exact ih (agrees.destroy x)

/-- The bytes that can be copied of a new message are those of the sender. -/
lemma visible_create (sender : Pid) {len : ℤ} (o : Oracle) (low : 0 ≤ len) (high : len ≤ maxMsgSize)
    (readable : len.toNat ≤ o.buffer.length) :
    (⟨sender,len,o.buffer.take len.toNat ++ o.stale.drop len.toNat⟩ : Message).visible =
      ⟨sender,len,o.buffer.take len.toNat⟩ := by
  have hsize : (len % 2 ^ 64).toNat = len.toNat := by
    unfold maxMsgSize at high
    omega
  have hlength : (o.buffer.take len.toNat).length = len.toNat := by
    rw [List.length_take]
    omega
  unfold Message.visible Message.copySize
  dsimp only
  rw [hsize,List.take_append_of_le_length (Nat.le_of_eq hlength.symm)]
  simp

lemma Agrees.create (agrees : h.Agrees h') (sender : Pid) (len : ℤ) {o o' : Oracle}
    (same : o'.forgetStale = o.forgetStale) :
    (h.create sender len o).1.Agrees (h'.create sender len o').1 ∧
      (h'.create sender len o').2 = (h.create sender len o).2 := by
  obtain ⟨halloc,-,hbuffer,-,-⟩ := Oracle.same_of_forgetStale same
  unfold MessageCache.create
  dsimp only
  rw [halloc,hbuffer,agrees.created]
  split_ifs with hlen hmemory hfault
  · exact ⟨agrees,rfl⟩
  · exact ⟨agrees,rfl⟩
  · refine ⟨⟨rfl,?_,agrees.strayFrees,?_⟩,rfl⟩
    · unfold MessageCache.free
      dsimp only
      rw [agrees.frees]
    · -- the object is freed at once
      intro n hn hlive
      obtain ⟨hne,hlive⟩ := live_of_free hlive
      unfold MessageCache.free
      dsimp only
      rw [Function.update_of_ne hne,Function.update_of_ne hne]
      apply agrees.object n _ hlive
      exact Nat.lt_of_le_of_ne (Nat.le_of_lt_succ hn) hne
  · refine ⟨⟨rfl,agrees.frees,agrees.strayFrees,?_⟩,rfl⟩
    intro n hn hlive
    by_cases hne : n = h.created
    · subst n
      obtain ⟨hhigh,hlow⟩ := not_or.mp hlen
      have hnew := visible_create sender o (not_lt.mp hlow) (not_lt.mp hhigh)
        (not_lt.mp hfault)
      have hnew' := visible_create sender o' (not_lt.mp hlow) (not_lt.mp hhigh)
        (by rw [hbuffer]; exact not_lt.mp hfault)
      rw [hbuffer] at hnew'
      dsimp only
      rw [Function.update_self,Function.update_self,hnew,hnew']
    · dsimp only
      rw [Function.update_of_ne hne,Function.update_of_ne hne]
      apply agrees.object n _ hlive
      exact Nat.lt_of_le_of_ne (Nat.le_of_lt_succ hn) hne

/-- A read of a live message, or through a pointer that is none, is the same in both. -/
lemma Agrees.read (agrees : h.Agrees h') {x : MessagePtr} {o o' : Oracle}
    (same : o'.forgetStale = o.forgetStale)
    (live : ∀ n, x = .object n → n < h.created ∧ h.frees n = 0) :
    (h'.read o' x).visible = (h.read o x).visible := by
  cases x with
  | object n => exact agrees.object n (live n rfl).1 (live n rfl).2
  | listHead n =>
    obtain ⟨-,-,-,-,hgarbage⟩ := Oracle.same_of_forgetStale same
    exact congrArg Message.visible hgarbage

end MessageCache

namespace System
variable {hash32 : Pid → ℕ} {sig : Actor → Bool} {s s' t t' : System} {act act' : Action}
  {tr tr' : List (System × Action)}

def withMessages (s : System) (h : MessageCache) : System := { s with messages := h }

/-- The two systems differ at most in bytes of messages that nobody reads. -/
def Agrees (s t : System) : Prop := ∃ h, t = s.withMessages h ∧ s.messages.Agrees h

lemma runSection_withMessages (s : System) (h : MessageCache) (p : Pid) (m : ℕ)
    (cs : CallState MessagePtr) (k : Cont) :
    (s.withMessages h).runSection p m cs k = (s.runSection p m cs k).withMessages h := by
  unfold runSection
  dsimp only [withMessages]
  generalize Mailbox.criticalSection (.task p) (s.signalPending (.task p)) (s.mailboxes m) cs = r
  obtain ⟨m',pr⟩ := r
  cases pr <;> rfl

lemma lookupMailbox_withMessages (s : System) (h : MessageCache) (p pid : Pid) (c : Syscall)
    {o o' : Oracle} (same : o'.alloc = o.alloc) :
    (s.withMessages h).lookupMailbox hash32 p pid c o' =
      (s.lookupMailbox hash32 p pid c o).withMessages h := by
  have hget : (s.withMessages h).get hash32 pid = s.get hash32 pid := rfl
  unfold lookupMailbox
  rw [hget,same]
  cases s.get hash32 pid with
  | some m => rfl
  | none =>
    dsimp only
    split_ifs <;> rfl

lemma lookupForRemoval_withMessages (s : System) (h : MessageCache) (p : Pid) (group : Bool) :
    (s.withMessages h).lookupForRemoval hash32 p group =
      (s.lookupForRemoval hash32 p group).withMessages h := by
  have hget : (s.withMessages h).get hash32 ((s.withMessages h).processes.tgid p) =
      s.get hash32 (s.processes.tgid p) := rfl
  unfold lookupForRemoval
  rw [hget]
  cases s.get hash32 (s.processes.tgid p) <;> rfl

/-- What does not touch the messages runs the same with other messages. -/
lemma runTask_withMessages (hash32 : Pid → ℕ) (s : System) (h : MessageCache) {p : Pid} {o o' : Oracle}
    (same : o'.forgetStale = o.forgetStale) (create : ∀ m len block, s.pc p ≠ .createMessage m len block)
    (copy : ∀ m x ptrs, s.pc p ≠ .copyToUser m x ptrs) (destroy : ∀ x, s.pc p ≠ .destroyMessage x) :
    (s.withMessages h).runTask hash32 p o' = (s.runTask hash32 p o).map (·.withMessages h) := by
  obtain ⟨halloc,hthread,-,-,-⟩ := Oracle.same_of_forgetStale same
  have hpc : (s.withMessages h).pc p = s.pc p := rfl
  unfold runTask
  rw [hpc]
  cases hc : s.pc p with
  | createMessage m len block => exact absurd hc (create m len block)
  | copyToUser m x ptrs => exact absurd hc (copy m x ptrs)
  | destroyMessage x => exact absurd hc (destroy x)
  | lookup pid c =>
    by_cases hlock : s.tableLock = none
    · have hlock' : (s.withMessages h).tableLock = none := hlock
      simp only [hlock,hlock',if_true,Option.map_some]
      exact congrArg some (lookupMailbox_withMessages s h p pid c halloc)
    · have hlock' : (s.withMessages h).tableLock ≠ none := hlock
      simp only [hlock,hlock',if_false,Option.map_none]
  | onMailbox m cs k =>
    by_cases hrun : (s.mailboxes m).runnable (.task p) (s.signalPending (.task p)) cs = true
    · have hrun' : ((s.withMessages h).mailboxes m).runnable (.task p)
          ((s.withMessages h).signalPending (.task p)) cs = true := hrun
      dsimp only
      rw [if_pos hrun',if_pos hrun]
      exact congrArg some (runSection_withMessages s h p m cs k)
    · have hrun' : ¬ ((s.withMessages h).mailboxes m).runnable (.task p)
          ((s.withMessages h).signalPending (.task p)) cs = true := hrun
      dsimp only
      rw [if_neg hrun',if_neg hrun]
      rfl
  | checkExiting m c =>
    by_cases hexit : (s.mailboxes m).stopped &&& exitingFlag = 0
    · have hexit' : ((s.withMessages h).mailboxes m).stopped &&& exitingFlag = 0 := hexit
      simp only [hexit,hexit',ne_eq,not_true_eq_false,if_false,Option.map_some]
      rfl
    · have hexit' : ¬ ((s.withMessages h).mailboxes m).stopped &&& exitingFlag = 0 := hexit
      simp only [hexit,hexit',ne_eq,not_false_eq_true,if_true,Option.map_some]
      rfl
  | copyCount m stop count =>
    apply congrArg some
    unfold copyCount
    dsimp only
    split_ifs <;> rfl
  | removeLookup group =>
    by_cases hlock : s.tableLock = none
    · have hlock' : (s.withMessages h).tableLock = none := hlock
      simp only [hlock,hlock',if_true,Option.map_some]
      exact congrArg some (lookupForRemoval_withMessages s h p group)
    · have hlock' : (s.withMessages h).tableLock ≠ none := hlock
      simp only [hlock,hlock',if_false,Option.map_none]
  | startDeletion m group =>
    dsimp only
    rw [hthread]
    apply congrArg some
    by_cases hk : o.kthreadRun = true
    · simp only [hk,if_true]
      rfl
    · simp only [hk]
      rfl
  | validate pid c | exitHook | realExit group | decrementLive | die | absent | user last
  | zombie => rfl

lemma createMessage_withMessages (s : System) (c : MessageCache) (p : Pid) (m : ℕ) (len : ℤ)
    (block : Bool) {o o' : Oracle} (same : (c.create (s.processes.tgid p) len o').2 =
      (s.messages.create (s.processes.tgid p) len o).2) :
    (s.withMessages c).createMessage p m len block o' =
      (s.createMessage p m len block o).withMessages (c.create (s.processes.tgid p) len o').1 := by
  unfold createMessage
  dsimp only [withMessages]
  revert same
  generalize s.messages.create (s.processes.tgid p) len o = r
  generalize c.create (s.processes.tgid p) len o' = r'
  obtain ⟨h,r⟩ := r
  obtain ⟨h',r'⟩ := r'
  rintro rfl
  cases r' <;> rfl

lemma messages_createMessage (s : System) (p : Pid) (m : ℕ) (len : ℤ) (block : Bool) (o : Oracle) :
    (s.createMessage p m len block o).messages =
      (s.messages.create (s.processes.tgid p) len o).1 := by
  unfold createMessage
  dsimp only
  cases (s.messages.create (s.processes.tgid p) len o).2 <;> rfl

/-- A task takes its next step, in both systems the same but for recycled bytes. -/
lemma Agrees.runTask (agrees : s.Agrees t) {p : Pid} {o o' : Oracle}
    (live : ∀ n, s.holding p = some (.object n) → s.LiveMessage n)
    (same : o'.forgetStale = o.forgetStale) (h : s.runTask hash32 p o = some s') :
    ∃ t', t.runTask hash32 p o' = some t' ∧ s'.Agrees t' := by
  obtain ⟨c,rfl,hagrees⟩ := agrees
  have hpc : (s.withMessages c).pc p = s.pc p := rfl
  -- the three points at which messages are made, read or freed
  by_cases hcreate : ∃ m len block, s.pc p = .createMessage m len block
  · obtain ⟨m,len,block,hc⟩ := hcreate
    unfold System.runTask at h ⊢
    rw [hpc]
    simp only [hc,Option.some.injEq] at h ⊢
    obtain ⟨hnew,hresult⟩ := hagrees.create (s.processes.tgid p) len same
    refine ⟨_,rfl,(c.create (s.processes.tgid p) len o').1,?_,?_⟩
    · rw [← h]
      exact createMessage_withMessages s c p m len block hresult
    · rw [← h,messages_createMessage]
      exact hnew
  by_cases hcopy : ∃ m x ptrs, s.pc p = .copyToUser m x ptrs
  · obtain ⟨m,x,ptrs,hc⟩ := hcopy
    unfold System.runTask at h ⊢
    rw [hpc]
    simp only [hc,Option.some.injEq] at h ⊢
    have hread : (c.read o' x).visible = (s.messages.read o x).visible := by
      apply hagrees.read same
      rintro n rfl
      apply live n
      unfold holding
      rw [hc]
      rfl
    have hwritten : copyMessage ptrs (c.read o' x) = copyMessage ptrs (s.messages.read o x) := by
      rw [← copyMessage_visible ptrs (c.read o' x),hread,copyMessage_visible]
    have hwritable : ptrs.writable (c.read o' x) = ptrs.writable (s.messages.read o x) := by
      rw [← writable_visible ptrs (c.read o' x),hread,writable_visible]
    refine ⟨_,rfl,c,?_,?_⟩
    · subst s'
      unfold System.copyToUser
      change (if ptrs.writable (c.read o' x) then _ else _) = _
      dsimp only [withMessages]
      rw [hwritten,hwritable]
      split <;> rfl
    · subst s'
      unfold System.copyToUser
      dsimp only
      split <;> exact hagrees
  by_cases hdestroy : ∃ x, s.pc p = .destroyMessage x
  · obtain ⟨x,hc⟩ := hdestroy
    unfold System.runTask at h ⊢
    rw [hpc]
    simp only [hc,Option.some.injEq] at h ⊢
    subst s'
    exact ⟨_,rfl,c.destroy x,rfl,hagrees.destroy x⟩
  · have hrest := runTask_withMessages hash32 s c same
      (fun m len block hc => hcreate ⟨m,len,block,hc⟩) (fun m x ptrs hc => hcopy ⟨m,x,ptrs,hc⟩)
      fun x hc => hdestroy ⟨x,hc⟩
    rw [h,Option.map_some] at hrest
    refine ⟨_,hrest,c,rfl,?_⟩
    have hkept : s'.messages = s.messages := by
      cases runTask_stepped h with
      | messageCreated pc | messageFailed pc => exact absurd ⟨_,_,_,pc⟩ hcreate
      | destroyed pc => exact absurd ⟨_,pc⟩ hdestroy
      | _ => rfl
    rw [hkept]
    exact hagrees

/-- A deletion thread takes its next step. -/
lemma Agrees.runDeletionThread (agrees : s.Agrees t) {k : ℕ} {d : DeletionThread} {o o' : Oracle}
    (same : o'.forgetStale = o.forgetStale) (h : s.runDeletionThread hash32 k d o = some s') :
    ∃ t', t.runDeletionThread hash32 k d o' = some t' ∧ s'.Agrees t' := by
  obtain ⟨c,rfl,hagrees⟩ := agrees
  obtain ⟨-,-,-,howner,-⟩ := Oracle.same_of_forgetStale same
  obtain ⟨m,pc⟩ := d
  cases pc with
  | start =>
    cases h
    refine ⟨_,rfl,c,?_,hagrees⟩
    dsimp only
    rw [howner]
    rfl
  | waitExit pid =>
    unfold System.runDeletionThread at h ⊢
    change (if s.processes.isProcessValid pid then _ else _) = _ at h
    change ∃ t', (if s.processes.isProcessValid pid then _ else _) = _ ∧ _
    split_ifs at h ⊢ <;> cases h <;> exact ⟨_,rfl,c,rfl,hagrees⟩
  | unlink pid =>
    unfold System.runDeletionThread at h ⊢
    change (if s.tableLock = none then _ else _) = _ at h
    change ∃ t', (if s.tableLock = none then _ else _) = _ ∧ _
    split_ifs at h ⊢
    cases h
    exact ⟨_,rfl,c,rfl,hagrees⟩
  | destroying cs =>
    unfold System.runDeletionThread at h ⊢
    change (if (s.mailboxes m).runnable (.kthread k) (s.signalPending (.kthread k)) cs then _
      else _) = _ at h
    change ∃ t', (if (s.mailboxes m).runnable (.kthread k) (s.signalPending (.kthread k)) cs then _
      else _) = _ ∧ _
    split_ifs at h ⊢
    cases h
    refine ⟨_,rfl,?_⟩
    unfold runDestroy
    dsimp only [withMessages]
    generalize Mailbox.criticalSection (.kthread k) (s.signalPending (.kthread k))
      (s.mailboxes m) cs = r
    obtain ⟨m',pr⟩ := r
    cases pr with
    | next cs' | returned r => exact ⟨c,rfl,hagrees⟩
    | flushed xs => exact ⟨xs.foldl MessageCache.destroy c,rfl,hagrees.destroys xs⟩
  | done => cases h

/-- A step that is not one of a thread of the module does not look at the messages. -/
lemma step_withMessages (s : System) (c : MessageCache) (idle : act.actor = none)
    (h : step hash32 s act = some s') :
    step hash32 (s.withMessages c) act = some (s'.withMessages c) ∧ s'.messages = s.messages := by
  cases step_stepped h with
  | newProcess absent free => exact ⟨if_pos ⟨absent,free⟩,rfl⟩
  | clone caller alive absent free =>
    refine ⟨?_,rfl⟩
    simp only [step,withMessages,caller,alive,absent,free,and_self,if_true]
    rfl
  | fatalSignal alive => exact ⟨if_pos alive,rfl⟩
  | reap zombie released => exact ⟨if_pos ⟨zombie,released⟩,rfl⟩
  | signal => exact ⟨rfl,rfl⟩
  | enter user | exit user | exitGroup user =>
    refine ⟨?_,rfl⟩
    simp only [step,withMessages,user]
    rfl
  | handle user =>
    refine ⟨?_,rfl⟩
    simp only [step,withMessages,user]
  | killed user group =>
    refine ⟨?_,rfl⟩
    simp only [step,withMessages,user,group,if_true]
    rfl
  | valid | invalid | found | created | outOfMemory | stays | returned | refused | granted
  | messageCreated | messageFailed | countFault | countCopied | copied | copyFault | destroyed
  | lastThread | otherThread | removalFound | removalMissing | deletionStarted | deletionFailed
  | realExit | decrementLive | die | ownerRead | stillValid | exited | unlinked | destroyStays
  | flushed | deleted => cases idle

lemma forgetStale_of_idle (idle : act.actor = none) (same : act'.forgetStale = act.forgetStale) :
    act' = act := by
  cases act with
  | run p o | runDeletion k o => cases idle
  | _ => cases act' <;> simp_all [Action.forgetStale]

/-- The two systems take the same step. -/
theorem Agrees.step (agrees : s.Agrees t) (inv : CustodyInvariant s)
    (same : act'.forgetStale = act.forgetStale) (h : step hash32 s act = some s') :
    ∃ t', System.step hash32 t act' = some t' ∧ s'.Agrees t' := by
  cases hactor : act.actor with
  | none =>
    obtain rfl := forgetStale_of_idle hactor same
    obtain ⟨c,rfl,hagrees⟩ := agrees
    obtain ⟨hstep,hkept⟩ := step_withMessages s c hactor h
    exact ⟨_,hstep,c,rfl,hkept ▸ hagrees⟩
  | some a =>
    cases act with
    | run p o =>
      cases act' with
      | run p' o' =>
        obtain ⟨rfl,hsame⟩ : p' = p ∧ o'.forgetStale = o.forgetStale := by
          simpa [Action.forgetStale] using same
        exact agrees.runTask (fun n hn => inv.custody.live (.call p') n hn) hsame h
      | _ => cases same
    | runDeletion k o =>
      cases act' with
      | runDeletion k' o' =>
        obtain ⟨rfl,hsame⟩ : k' = k ∧ o'.forgetStale = o.forgetStale := by
          simpa [Action.forgetStale] using same
        have hdeletions : t.deletions = s.deletions := by
          obtain ⟨c,rfl,-⟩ := agrees
          rfl
        unfold System.step at h ⊢
        dsimp only at h ⊢
        rw [hdeletions]
        cases hd : s.deletions k' with
        | none =>
          rw [hd] at h
          cases h
        | some d =>
          rw [hd] at h
          exact agrees.runDeletionThread hsame h
      | _ => cases same
    | _ => cases hactor

/-- Two runs that differ only in the contents of recycled message objects agree throughout. -/
theorem agrees_of_runs (h : Run (step hash32) (initial sig) tr s)
    (h' : Run (step hash32) (initial sig) tr' t)
    (same : tr'.map (fun x => x.2.forgetStale) = tr.map fun x => x.2.forgetStale) :
    s.Agrees t := by
  induction h generalizing tr' t with
  | refl =>
    cases h' with
    | refl => exact ⟨_,rfl,.refl _⟩
    | snoc => simp at same
  | @snoc tr s act s' prior taken ih =>
    cases h' with
    | refl => simp at same
    | @snoc tr' t act' t' prior' taken' =>
      rw [List.map_append,List.map_append] at same
      obtain ⟨hprior,hlast⟩ := List.append_inj' same rfl
      obtain ⟨u,hu,hagrees⟩ := (ih prior' hprior).step (custodyInvariant_of_run prior)
        (List.singleton_inj.mp hlast) taken
      rw [taken'] at hu
      cases hu
      exact hagrees

end System
end ProcessMessagePassing
